import UaCrypt.Lib.Runs

/-!
# Sessions over an untrusted network

A sender and a receiver that undo one another, and an adversary that decides what
reaches the receiver: it may drop, repeat, reorder and invent messages, in any order
with the sender's calls.

- `Link`: the two machines and what ties them; `Net`: both parties with what passed
  between them, `Action`: the sender's and the adversary's moves.
- `Unforged`: the assumption on a run, that nothing the receiver takes is foreign.
- `InStep`, `inStep_run`: what every step keeps, and every unforged run with it.
- `received_prefix`, `next_accepted`, `received_all`: the receiver holds a prefix of
  what was sent, takes the next genuine message, and after a closing one holds all.
-/

namespace Channel

open Runs

variable {σ τ α β ρ : Type}

/-! ## Pieces of runs -/

/-- A run over `as ++ as'` is a run over `as` and one over `as'`. -/
theorem runAll_append_eq_some {step : σ → α → Option (β × σ)} {s u : σ} {as as' : List α}
    {out : List β} (h : runAll step s (as ++ as') = some (out, u)) :
    ∃ bs t bs', runAll step s as = some (bs, t) ∧ runAll step t as' = some (bs', u)
      ∧ out = bs ++ bs' := by
  induction as generalizing s out with
  | nil => exact ⟨[], s, out, rfl, h, rfl⟩
  | cons a as ih =>
    obtain ⟨b, s', rest, hstep, hrun, rfl⟩ := runAll_cons_eq_some.mp h
    obtain ⟨bs, t, bs', hfirst, hsecond, rfl⟩ := ih hrun
    exact ⟨b :: bs, t, bs', runAll_cons_eq_some.mpr ⟨b, s', bs, hstep, hfirst, rfl⟩, hsecond, rfl⟩

/-- The step that a run takes at the input of index `i`. -/
theorem runAll_getElem {step : σ → α → Option (β × σ)} {s t : σ} {as : List α} {bs : List β}
    (h : runAll step s as = some (bs, t)) {i : Nat} {b : β} (hb : bs[i]? = some b) :
    ∃ a u u', as[i]? = some a ∧ runAll step s (as.take i) = some (bs.take i, u)
      ∧ step u a = some (b, u')
      ∧ runAll step s (as.take (i + 1)) = some (bs.take (i + 1), u') := by
  induction i generalizing s as bs with
  | zero =>
    cases as with
    | nil =>
      cases h
      cases hb
    | cons a as =>
      obtain ⟨b', s', rest, hstep, -, rfl⟩ := runAll_cons_eq_some.mp h
      cases hb
      exact ⟨a, s, s', rfl, rfl, hstep, runAll_cons_eq_some.mpr ⟨b, s', [], hstep, rfl, rfl⟩⟩
  | succ i ih =>
    cases as with
    | nil =>
      cases h
      cases hb
    | cons a as =>
      obtain ⟨b', s', rest, hstep, hrun, rfl⟩ := runAll_cons_eq_some.mp h
      obtain ⟨a', u, u', ha, hbefore, hu, hafter⟩ := ih hrun hb
      exact ⟨a', u, u', ha, runAll_cons_eq_some.mpr ⟨b', s', _, hstep, hbefore, rfl⟩, hu,
        runAll_cons_eq_some.mpr ⟨b', s', _, hstep, hafter, rfl⟩⟩

/-! ## The two parties -/

/-- A sender, and the receiver that undoes it. -/
structure Link (σ τ α β ρ : Type) where
  send : σ → α → Option (β × σ)
  recv : τ → β → Option (α × τ)
  /-- The sender's state that a receiver's state is in step with. -/
  mate : τ → σ
  /-- What the authenticator sees of a message, in a sender's state. -/
  record : σ → β → ρ
  /-- How much a sender has sent. -/
  position : σ → Nat
  recv_iff : ∀ {t t' : τ} {a : α} {b : β},
    recv t b = some (a, t') ↔ send (mate t) a = some (b, mate t')
  mate_surjective : Function.Surjective mate
  position_send : ∀ {s s' : σ} {a : α} {b : β},
    send s a = some (b, s') → position s' = position s + 1
  record_injective : ∀ {s s' : σ} {b b' : β},
    record s b = record s' b' → position s = position s' ∧ b = b'

/-- Both parties, and what has passed between them. -/
structure Net (σ τ α β ρ : Type) where
  sender : σ
  receiver : τ
  sent : List α
  wires : List β
  records : List ρ
  received : List α

/-- The sender is asked to send, or the adversary delivers something. -/
inductive Action (α β : Type) where
  | send (a : α)
  | deliver (b : β)

variable (L : Link σ τ α β ρ)

def Net.start (t : τ) : Net σ τ α β ρ := ⟨L.mate t, t, [], [], [], []⟩

/-- What a party refuses changes nothing. -/
def Net.step (n : Net σ τ α β ρ) : Action α β → Net σ τ α β ρ
  | .send a =>
    match L.send n.sender a with
    | none => n
    | some (b, s) =>
      { n with
        sender := s, sent := n.sent ++ [a], wires := n.wires ++ [b]
        records := n.records ++ [L.record n.sender b] }
  | .deliver b =>
    match L.recv n.receiver b with
    | none => n
    | some (a, t) => { n with receiver := t, received := n.received ++ [a] }

def Net.run (n : Net σ τ α β ρ) (actions : List (Action α β)) : Net σ τ α β ρ :=
  actions.foldl (Net.step L) n

/-- Nothing the receiver takes is foreign: the sender's authenticator made its record. -/
def Unforged : Net σ τ α β ρ → List (Action α β) → Prop
  | _, [] => True
  | n, action :: actions =>
    (∀ b, action = .deliver b → (L.recv n.receiver b).isSome →
      L.record (L.mate n.receiver) b ∈ n.records) ∧ Unforged (n.step L action) actions

/-- The sender's side is one run from `s₀`, and the receiver is as far along that run as
it has received. -/
structure InStep (s₀ : σ) (n : Net σ τ α β ρ) : Prop where
  sends : runAll L.send s₀ n.sent = some (n.wires, n.sender)
  recorded : ∀ r ∈ n.records, ∃ i s b, runAll L.send s₀ (n.sent.take i) = some (n.wires.take i, s)
    ∧ n.wires[i]? = some b ∧ r = L.record s b
  received : n.received = n.sent.take n.received.length
  receives : runAll L.send s₀ n.received
    = some (n.wires.take n.received.length, L.mate n.receiver)

variable {L}

theorem position_runAll {s s' : σ} {as : List α} {bs : List β}
    (h : runAll L.send s as = some (bs, s')) : L.position s' = L.position s + as.length := by
  induction as generalizing s bs with
  | nil =>
    cases h
    rfl
  | cons a as ih =>
    obtain ⟨b, t, bs, hstep, hrun, rfl⟩ := runAll_cons_eq_some.mp h
    rw [ih hrun, L.position_send hstep, List.length_cons]
    omega

theorem inStep_start (t : τ) : InStep L (L.mate t) (Net.start L t) where
  sends := rfl
  recorded := by
    intro r hr
    cases hr
  received := rfl
  receives := rfl

section

variable {s₀ : σ} {n : Net σ τ α β ρ}

theorem InStep.length_wires (h : InStep L s₀ n) : n.wires.length = n.sent.length :=
  length_of_runAll h.sends

theorem InStep.length_received_le (h : InStep L s₀ n) : n.received.length ≤ n.sent.length := by
  rw [h.received, List.length_take]
  exact Nat.min_le_right _ _

theorem InStep.send (h : InStep L s₀ n) {a : α} {b : β} {s : σ}
    (hsend : L.send n.sender a = some (b, s)) :
    InStep L s₀ { n with
      sender := s, sent := n.sent ++ [a], wires := n.wires ++ [b]
      records := n.records ++ [L.record n.sender b] } where
  sends := runAll_append h.sends (runAll_cons_eq_some.mpr ⟨b, s, [], hsend, rfl, rfl⟩)
  recorded := by
    intro r hr
    rcases List.mem_append.mp hr with hr | hr
    · obtain ⟨i, s', b', hrun, hb', rfl⟩ := h.recorded r hr
      have hi : i ≤ n.wires.length := (List.getElem?_eq_some_iff.mp hb').1.le
      refine ⟨i, s', b', ?_, ?_, rfl⟩
      · rw [List.take_append_of_le_length hi,
          List.take_append_of_le_length (by rwa [← h.length_wires])]
        exact hrun
      · rw [List.getElem?_append_left (List.getElem?_eq_some_iff.mp hb').1]
        exact hb'
    · obtain rfl := List.mem_singleton.mp hr
      refine ⟨n.sent.length, n.sender, b, ?_, ?_, rfl⟩
      · rw [List.take_left, ← h.length_wires, List.take_left]
        exact h.sends
      · rw [← h.length_wires, List.getElem?_concat_length]
  received := by
    rw [List.take_append_of_le_length h.length_received_le]
    exact h.received
  receives := by
    rw [List.take_append_of_le_length (by rw [h.length_wires]; exact h.length_received_le)]
    exact h.receives

/-- The receiver takes the message at its own index, as the chunk that was sent there. -/
theorem InStep.recv_next (h : InStep L s₀ n) {b : β} (hb : n.wires[n.received.length]? = some b) :
    ∃ a t, n.sent[n.received.length]? = some a ∧ L.recv n.receiver b = some (a, t)
      ∧ runAll L.send s₀ (n.sent.take (n.received.length + 1))
        = some (n.wires.take (n.received.length + 1), L.mate t) := by
  obtain ⟨a, u, u', ha, hbefore, hstep, hafter⟩ := runAll_getElem h.sends hb
  rw [← h.received, h.receives] at hbefore
  cases hbefore
  obtain ⟨t, rfl⟩ := L.mate_surjective u'
  exact ⟨a, t, ha, L.recv_iff.mpr hstep, hafter⟩

/-- What an unforged delivery brings is the message at the receiver's own index. -/
theorem InStep.wire_of_record (h : InStep L s₀ n) {b : β}
    (hrecord : L.record (L.mate n.receiver) b ∈ n.records) :
    n.wires[n.received.length]? = some b := by
  obtain ⟨i, s, b', hrun, hb', heq⟩ := h.recorded _ hrecord
  obtain ⟨hposition, rfl⟩ := L.record_injective heq
  have hi : i < n.wires.length := (List.getElem?_eq_some_iff.mp hb').1
  have hleft := position_runAll h.receives
  have hright := position_runAll hrun
  rw [List.length_take, ← h.length_wires, Nat.min_eq_left hi.le] at hright
  have hindex : n.received.length = i := by omega
  rw [hindex]
  exact hb'

theorem InStep.deliver (h : InStep L s₀ n) {a : α} {b : β} {t : τ}
    (hrecv : L.recv n.receiver b = some (a, t))
    (hrecord : L.record (L.mate n.receiver) b ∈ n.records) :
    InStep L s₀ { n with receiver := t, received := n.received ++ [a] } := by
  obtain ⟨a', t', ha', hrecv', hrun⟩ := h.recv_next (h.wire_of_record hrecord)
  rw [hrecv] at hrecv'
  cases hrecv'
  have htake : n.received ++ [a] = n.sent.take (n.received.length + 1) := by
    rw [List.take_add_one, ha', ← h.received]
    rfl
  have hlength : (n.received ++ [a]).length = n.received.length + 1 := by simp
  refine ⟨h.sends, h.recorded, ?_, ?_⟩
  · show n.received ++ [a] = n.sent.take (n.received ++ [a]).length
    rw [hlength, htake]
  · show runAll L.send s₀ (n.received ++ [a])
      = some (n.wires.take (n.received ++ [a]).length, L.mate t)
    rw [hlength, htake]
    exact hrun

/-- **One step keeps the parties in step**, where its delivery is not forged. -/
theorem InStep.step (h : InStep L s₀ n) {action : Action α β}
    (hunforged : ∀ b, action = .deliver b → (L.recv n.receiver b).isSome →
      L.record (L.mate n.receiver) b ∈ n.records) : InStep L s₀ (n.step L action) := by
  cases action with
  | send a =>
    rw [Net.step]
    split
    · exact h
    · rename_i b s hsend
      exact h.send hsend
  | deliver b =>
    rw [Net.step]
    split
    · exact h
    · rename_i a t hrecv
      exact h.deliver hrecv (hunforged b rfl (by rw [hrecv]; rfl))

/-- So does every run. -/
theorem inStep_run (h : InStep L s₀ n) {actions : List (Action α β)}
    (hunforged : Unforged L n actions) : InStep L s₀ (n.run L actions) := by
  induction actions generalizing n with
  | nil => exact h
  | cons action actions ih => exact ih (h.step hunforged.1) hunforged.2

/-! ## What the receiver holds -/

/-- Nothing lost, repeated, reordered or invented. -/
theorem InStep.received_prefix (h : InStep L s₀ n) : n.received <+: n.sent := by
  rw [h.received]
  exact List.take_prefix _ _

/-- The next genuine message is taken, whatever was delivered before it. -/
theorem InStep.next_accepted (h : InStep L s₀ n) {b : β}
    (hb : n.wires[n.received.length]? = some b) :
    ∃ a t, n.sent[n.received.length]? = some a ∧ L.recv n.receiver b = some (a, t) := by
  obtain ⟨a, t, ha, hrecv, -⟩ := h.recv_next hb
  exact ⟨a, t, ha, hrecv⟩

/-- Where nothing can be sent after a closing message, whoever receives one has received
everything. -/
theorem InStep.received_all (h : InStep L s₀ n) (closes : α → Prop)
    (hclose : ∀ {s s' : σ} {a : α} {b : β}, L.send s a = some (b, s') → closes a →
      ∀ a', L.send s' a' = none) {a : α} (ha : a ∈ n.received) (hcloses : closes a) :
    n.received = n.sent := by
  obtain ⟨rest, hrest⟩ := h.received_prefix
  obtain ⟨before, after, hsplit⟩ := List.append_of_mem ha
  have hrun := h.sends
  rw [← hrest, hsplit, List.append_assoc, List.cons_append] at hrun
  obtain ⟨_, s, _, _, hfrom, _⟩ := runAll_append_eq_some hrun
  obtain ⟨b, s', _, hsend, hend, _⟩ := runAll_cons_eq_some.mp hfrom
  -- one more message would have been refused
  have hnil : after ++ rest = [] := by
    cases hcase : after ++ rest with
    | nil => rfl
    | cons a' more =>
      rw [hcase] at hend
      obtain ⟨_, _, _, hnext, _, _⟩ := runAll_cons_eq_some.mp hend
      rw [hclose hsend hcloses] at hnext
      cases hnext
  rw [← hrest, (List.append_eq_nil_iff.mp hnil).2, List.append_nil]

end

/-- A refused delivery and then an honest one. -/
theorem unforged_of_refused {t : τ} {x b : β} {a : α} {s : σ} (hrefused : L.recv t x = none)
    (hsend : L.send (L.mate t) a = some (b, s)) :
    Unforged L (Net.start L t) [.deliver x, .send a, .deliver b] := by
  have hfirst : (Net.start L t).step L (.deliver x) = Net.start L t := by
    simp [Net.step, Net.start, hrefused]
  have hsecond : ((Net.start L t).step L (.send a)).receiver = t
      ∧ ((Net.start L t).step L (.send a)).records = [L.record (L.mate t) b] := by
    simp [Net.step, Net.start, hsend]
  refine ⟨fun x' hx' htaken => ?_, ?_, fun x' hx' _ => ?_, trivial⟩
  · cases hx'
    rw [Net.start, hrefused] at htaken
    cases htaken
  · intro x' hx'
    cases hx'
  · cases hx'
    rw [hfirst, hsecond.1, hsecond.2]
    exact List.mem_singleton_self _

end Channel
