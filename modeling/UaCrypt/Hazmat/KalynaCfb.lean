import UaCrypt.Hazmat.Kalyna
import UaCrypt.Lib.Chunks
import UaCrypt.Lib.Keystream
import UaCrypt.Lib.Runs

/-!
# Kalyna-CFB (`hazmat/kalyna_cfb.rs`)

Cipher feedback with a feedback width `q`. Every index and slice of the source is
checked here: where the source would panic, a call returns `none`. The three loops take
the part of the buffer in front of them and return what they wrote and what they left.

- `Cfb.new`, `Cfb.encryptInPlace`, `Cfb.decryptInPlace`, which differ only in where the
  ciphertext byte fed back comes from (`Direction`).
- `crypt`, `after`: what a call computes from the block `γ` it starts on, by groups of
  `q` bytes, and the block it ends on.
- `Ready γ cfb`, `Spent cfb`: the two kinds of reachable state. A call from a ready
  state never panics and leaves a ready state if it was aligned, a spent one if not
  (`inPlace_ready`); a spent state refuses everything (`inPlace_spent`).
-/

namespace UaCrypt.Hazmat.KalynaCfb

open Tables Kalyna Chunks Keystream Runs

inductive CfbError where
  | invalidFeedbackWidth
  | nonAlignedIntermediateCall
  deriving DecidableEq, Repr

/-- The feedback widths `new` takes. -/
def Width (v : Variant) (q : Nat) : Prop :=
  ¬(q = 0 ∨ q > v.blockBytes ∨ ¬(q = 1 ∨ q = 8 ∨ q = 16 ∨ q = 32 ∨ q = 64))

instance (v : Variant) (q : Nat) : Decidable (Width v q) :=
  inferInstanceAs (Decidable ¬_)

/-- `Kalyna*Cfb`. Only `new` makes one, so `q` is an admissible width. -/
structure Cfb (v : Variant) where
  key : ExpandedKey v
  gamma : Vector UInt8 v.blockBytes
  feed : Vector UInt8 v.blockBytes
  q : Nat
  width : Width v q
  usedGammaLen : Nat

/-- Which side of the XOR is the ciphertext. -/
inductive Direction where
  | encrypt
  | decrypt
  deriving DecidableEq, Repr

/-- The ciphertext among the bytes read and the bytes written. -/
def Direction.ciphertext {α : Type} : Direction → (input output : α) → α
  | .encrypt, _, output => output
  | .decrypt, input, _ => input

/-- The registers a call works on. -/
structure Run (v : Variant) where
  gamma : Vector UInt8 v.blockBytes
  feed : Vector UInt8 v.blockBytes
  offset : Nat

theorem width_pos {v : Variant} {q : Nat} (h : Width v q) : 0 < q := by
  unfold Width at h
  omega

section Calls

variable (p : Profile) {v : Variant} (dir : Direction)

/-- `while offset < self.q && data_off < buf.len()`. -/
def leading (q : Nat) : Run v → List UInt8 → Option (Run v × List UInt8 × List UInt8)
  | run, [] => some (run, [], [])
  | run, b :: rest =>
    if run.offset < q then
      if h : run.offset < v.blockBytes then
        let out := b ^^^ run.gamma[run.offset]
        let feed := run.feed.set run.offset (dir.ciphertext b out)
        match leading q { run with feed := feed, offset := run.offset + 1 } rest with
        | none => none
        | some (run, written, left) => some (run, out :: written, left)
      else none
    else some (run, [], b :: rest)

/-- `while data_off + self.q <= buf.len()`. -/
def groups (key : ExpandedKey v) (q : Nat) (hq : 0 < q) (run : Run v) (rest : List UInt8) :
    Option (Run v × List UInt8 × List UInt8) :=
  if q ≤ rest.length then
    if run.offset + q ≤ v.blockBytes then
      let chunk := rest.take q
      let out := xorBytes chunk ((run.gamma.toList.drop run.offset).take q)
      let feed := overwriteAt run.gamma run.offset (dir.ciphertext chunk out)
      let run := { run with feed := feed, gamma := key.encryptBlock p feed }
      match groups key q hq run (rest.drop q) with
      | none => none
      | some (run, written, left) => some (run, out ++ written, left)
    else none
  else some (run, [], rest)
termination_by rest.length
decreasing_by
  rw [List.length_drop]
  omega

/-- `while data_off < buf.len()`: the last group, read from the end of `gamma`. -/
def tail : Run v → List UInt8 → Option (Run v × List UInt8)
  | run, [] => some (run, [])
  | run, b :: rest =>
    if h : (b :: rest).length ≤ v.blockBytes ∧ run.offset < v.blockBytes then
      have hidx : v.blockBytes - (b :: rest).length < v.blockBytes := by
        have hpos : 0 < (b :: rest).length := Nat.succ_pos _
        omega
      let out := b ^^^ run.gamma[v.blockBytes - (b :: rest).length]
      let feed := run.feed.set run.offset (dir.ciphertext b out)
      match tail { run with feed := feed, offset := run.offset + 1 } rest with
      | none => none
      | some (run, written) => some (run, out :: written)
    else none

/-- The block before the main loop: finish a partial group, then a fresh `gamma` if the
last one is used up. -/
def resume (key : ExpandedKey v) (q : Nat) (run : Run v) (buf : List UInt8) :
    Option (Run v × List UInt8 × List UInt8) :=
  if run.offset ≠ 0 then
    match leading dir q run buf with
    | none => none
    | some (run, written, left) =>
      if run.offset = v.blockBytes then
        some ({ run with gamma := key.encryptBlock p run.feed, offset := v.blockBytes - q },
          written, left)
      else some (run, written, left)
  else some (run, [], buf)

/-- The body of `encrypt_in_place` and `decrypt_in_place`; `none` is a panic. -/
def Cfb.inPlace (cfb : Cfb v) (buf : List UInt8) :
    Option (Except CfbError Unit × Cfb v × List UInt8) :=
  if cfb.usedGammaLen % cfb.q ≠ 0 then some (.error .nonAlignedIntermediateCall, cfb, buf)
  else
    match resume p dir cfb.key cfb.q ⟨cfb.gamma, cfb.feed, cfb.usedGammaLen⟩ buf with
    | none => none
    | some (run, written₁, left) =>
      match groups p dir cfb.key cfb.q (width_pos cfb.width) run left with
      | none => none
      | some (run, written₂, left) =>
        match tail dir run left with
        | none => none
        | some (run, written₃) =>
          some (.ok (),
            { cfb with gamma := run.gamma, feed := run.feed, usedGammaLen := run.offset },
            written₁ ++ written₂ ++ written₃)

def Cfb.new (v : Variant) (key : Vector UInt8 v.keyBytes) (iv : Vector UInt8 v.blockBytes)
    (q : Nat) : Except CfbError (Cfb v) :=
  if h : Width v q then
    .ok { key := ExpandedKey.new p v key, gamma := iv, feed := iv, q := q, width := h
          usedGammaLen := v.blockBytes }
  else .error .invalidFeedbackWidth

def Cfb.encryptInPlace (cfb : Cfb v) (buf : List UInt8) :
    Option (Except CfbError Unit × Cfb v × List UInt8) :=
  cfb.inPlace p .encrypt buf

def Cfb.decryptInPlace (cfb : Cfb v) (buf : List UInt8) :
    Option (Except CfbError Unit × Cfb v × List UInt8) :=
  cfb.inPlace p .decrypt buf

end Calls

/-! ## What a call computes -/

section Spec

variable (p : Profile) {v : Variant} (key : ExpandedKey v)

theorem width_dvd {q : Nat} (h : Width v q) : q ∣ v.blockBytes := by
  unfold Width at h
  have hq : q ≤ v.blockBytes ∧ (q = 1 ∨ q = 8 ∨ q = 16 ∨ q = 32 ∨ q = 64) := by omega
  obtain ⟨hle, hq⟩ := hq
  rcases hq with rfl | rfl | rfl | rfl | rfl <;> cases v <;> revert hle <;> decide

theorem width_le {q : Nat} (h : Width v q) : q ≤ v.blockBytes := by
  unfold Width at h
  omega

/-- One group, or the shorter last one: XOR with as many bytes from the end of `γ`. -/
def cryptPiece (γ : Vector UInt8 v.blockBytes) (piece : List UInt8) : List UInt8 :=
  xorBytes piece (γ.toList.drop (v.blockBytes - piece.length))

/-- The block after a group: `γ` with its end replaced by the ciphertext, encrypted. -/
def nextBlock (γ : Vector UInt8 v.blockBytes) (q : Nat) (ciphertext : List UInt8) :
    Vector UInt8 v.blockBytes :=
  key.encryptBlock p (overwriteAt γ (v.blockBytes - q) ciphertext)

/-- The block after the whole groups of `data`. -/
def after (dir : Direction) (q : Nat) (hq : 0 < q) (γ : Vector UInt8 v.blockBytes)
    (data : List UInt8) : Vector UInt8 v.blockBytes :=
  if q ≤ data.length then
    let chunk := data.take q
    after dir q hq (nextBlock p key γ q (dir.ciphertext chunk (cryptPiece γ chunk))) (data.drop q)
  else γ
termination_by data.length
decreasing_by
  rw [List.length_drop]
  omega

/-- The output for `data` from the block `γ`. -/
def crypt (dir : Direction) (q : Nat) (hq : 0 < q) (γ : Vector UInt8 v.blockBytes)
    (data : List UInt8) : List UInt8 :=
  if q ≤ data.length then
    let chunk := data.take q
    cryptPiece γ chunk
      ++ crypt dir q hq (nextBlock p key γ q (dir.ciphertext chunk (cryptPiece γ chunk)))
          (data.drop q)
  else cryptPiece γ data
termination_by data.length
decreasing_by
  rw [List.length_drop]
  omega

variable (dir : Direction) {q : Nat} (hq : 0 < q)

theorem crypt_of_le (γ : Vector UInt8 v.blockBytes) {chunk : List UInt8} (rest : List UInt8)
    (h : chunk.length = q) :
    crypt p key dir q hq γ (chunk ++ rest)
      = cryptPiece γ chunk
        ++ crypt p key dir q hq
            (nextBlock p key γ q (dir.ciphertext chunk (cryptPiece γ chunk))) rest := by
  subst h
  rw [crypt, if_pos (by simp), List.take_left, List.drop_left]

theorem after_of_le (γ : Vector UInt8 v.blockBytes) {chunk : List UInt8} (rest : List UInt8)
    (h : chunk.length = q) :
    after p key dir q hq γ (chunk ++ rest)
      = after p key dir q hq
          (nextBlock p key γ q (dir.ciphertext chunk (cryptPiece γ chunk))) rest := by
  subst h
  rw [after, if_pos (by simp), List.take_left, List.drop_left]

theorem crypt_of_lt (γ : Vector UInt8 v.blockBytes) {data : List UInt8} (h : data.length < q) :
    crypt p key dir q hq γ data = cryptPiece γ data := by
  rw [crypt, if_neg (Nat.not_le_of_lt h)]

theorem after_of_lt (γ : Vector UInt8 v.blockBytes) {data : List UInt8} (h : data.length < q) :
    after p key dir q hq γ data = γ := by
  rw [after, if_neg (Nat.not_le_of_lt h)]

/-- Whole groups first, then the rest from the block they lead to. -/
theorem crypt_append (γ : Vector UInt8 v.blockBytes) {front : List UInt8} (rest : List UInt8)
    (h : q ∣ front.length) :
    crypt p key dir q hq γ (front ++ rest)
      = crypt p key dir q hq γ front
        ++ crypt p key dir q hq (after p key dir q hq γ front) rest := by
  induction front using group_induction hq generalizing γ with
  | short front hlt =>
    have hnil : front = [] := List.eq_nil_of_length_eq_zero (Nat.eq_zero_of_dvd_of_lt h hlt)
    subst hnil
    rw [after_of_lt p key dir hq γ hlt, crypt_of_lt p key dir hq γ hlt]
    rfl
  | group chunk front hchunk ih =>
    have hdvd : q ∣ front.length := by
      rw [List.length_append, hchunk] at h
      exact (Nat.dvd_add_right (Nat.dvd_refl q)).mp h
    rw [List.append_assoc, crypt_of_le p key dir hq γ _ hchunk, ih _ hdvd,
      crypt_of_le p key dir hq γ _ hchunk, after_of_le p key dir hq γ _ hchunk, List.append_assoc]

theorem length_cryptPiece (γ : Vector UInt8 v.blockBytes) {piece : List UInt8}
    (h : piece.length ≤ v.blockBytes) : (cryptPiece γ piece).length = piece.length := by
  rw [cryptPiece, length_xorBytes]
  rw [List.length_drop, Vector.length_toList]
  omega

theorem cryptPiece_cryptPiece (γ : Vector UInt8 v.blockBytes) {piece : List UInt8}
    (h : piece.length ≤ v.blockBytes) : cryptPiece γ (cryptPiece γ piece) = piece := by
  rw [cryptPiece, length_cryptPiece γ h, cryptPiece, xorBytes_xorBytes]
  rw [List.length_drop, Vector.length_toList]
  omega

/-- Decryption feeds back the same ciphertext, so it runs through the same blocks. -/
theorem crypt_decrypt_encrypt (hle : q ≤ v.blockBytes) (γ : Vector UInt8 v.blockBytes)
    (data : List UInt8) :
    crypt p key .decrypt q hq γ (crypt p key .encrypt q hq γ data) = data := by
  induction data using group_induction hq generalizing γ with
  | short data hlt =>
    have hpiece := length_cryptPiece γ (Nat.le_trans (Nat.le_of_lt hlt) hle)
    rw [crypt_of_lt p key .encrypt hq γ hlt, crypt_of_lt p key .decrypt hq γ (by rwa [hpiece]),
      cryptPiece_cryptPiece γ (Nat.le_trans (Nat.le_of_lt hlt) hle)]
  | group chunk rest hchunk ih =>
    have hpiece := length_cryptPiece γ (Nat.le_trans (Nat.le_of_eq hchunk) hle)
    rw [crypt_of_le p key .encrypt hq γ rest hchunk,
      crypt_of_le p key .decrypt hq γ _ (hpiece.trans hchunk),
      cryptPiece_cryptPiece γ (Nat.le_trans (Nat.le_of_eq hchunk) hle)]
    exact congrArg (chunk ++ ·) (ih _)

end Spec

/-! ## The loops -/

section Loops

variable (p : Profile) {v : Variant} (dir : Direction)

/-- From an aligned offset the leading loop has nothing to do. -/
theorem leading_of_le {q : Nat} {run : Run v} (h : q ≤ run.offset) (buf : List UInt8) :
    leading dir q run buf = some (run, [], buf) := by
  cases buf with
  | nil => rfl
  | cons b rest => rw [leading, if_neg (Nat.not_lt_of_le h)]

/-- The main loop takes the whole groups. -/
theorem groups_eq (key : ExpandedKey v) {q : Nat} (hq : 0 < q) (hle : q ≤ v.blockBytes)
    (γ feed : Vector UInt8 v.blockBytes) (data : List UInt8) :
    ∃ feed' written left,
      groups p dir key q hq ⟨γ, feed, v.blockBytes - q⟩ data
          = some (⟨after p key dir q hq γ data, feed', v.blockBytes - q⟩, written, left)
        ∧ left.length = data.length % q
        ∧ written ++ cryptPiece (after p key dir q hq γ data) left
            = crypt p key dir q hq γ data := by
  induction data using group_induction hq generalizing γ feed with
  | short data hlt =>
    refine ⟨feed, [], data, ?_, (Nat.mod_eq_of_lt hlt).symm, ?_⟩
    · rw [groups, if_neg (Nat.not_le_of_lt hlt), after_of_lt p key dir hq γ hlt]
    · rw [after_of_lt p key dir hq γ hlt, crypt_of_lt p key dir hq γ hlt]
      rfl
  | group chunk rest hchunk ih =>
    -- the slice `gamma[offset..offset + q]` is the end of `gamma`
    have hslice : xorBytes chunk ((γ.toList.drop (v.blockBytes - q)).take q)
        = cryptPiece γ chunk := by
      rw [List.take_of_length_le, cryptPiece, hchunk]
      rw [List.length_drop, Vector.length_toList]
      omega
    obtain ⟨feed', written, left, hgroups, hleft, hout⟩ :=
      ih (nextBlock p key γ q (dir.ciphertext chunk (cryptPiece γ chunk)))
        (overwriteAt γ (v.blockBytes - q) (dir.ciphertext chunk (cryptPiece γ chunk)))
    refine ⟨feed', cryptPiece γ chunk ++ written, left, ?_, ?_, ?_⟩
    · rw [groups, if_pos (by simp [hchunk]), if_pos (by dsimp only; omega),
        after_of_le p key dir hq _ _ hchunk]
      simp only [List.take_left' hchunk, List.drop_left' hchunk, hslice]
      rw [nextBlock] at hgroups ⊢
      rw [hgroups]
    · rw [hleft, List.length_append, hchunk, Nat.add_mod_left]
    · rw [after_of_le p key dir hq _ _ hchunk, crypt_of_le p key dir hq _ _ hchunk,
        List.append_assoc, hout]

theorem cryptPiece_cons (γ : Vector UInt8 v.blockBytes) (b : UInt8) {rest : List UInt8}
    (h : (b :: rest).length ≤ v.blockBytes)
    (hidx : v.blockBytes - (b :: rest).length < v.blockBytes) :
    cryptPiece γ (b :: rest)
      = (b ^^^ γ[v.blockBytes - (b :: rest).length]) :: cryptPiece γ rest := by
  have hnext : v.blockBytes - (b :: rest).length + 1 = v.blockBytes - rest.length := by
    rw [List.length_cons] at h ⊢
    omega
  rw [cryptPiece, List.drop_eq_getElem_cons (by simpa using hidx), hnext, Vector.getElem_toList]
  rfl

/-- The last group reads the end of `gamma` and moves the offset past it. -/
theorem tail_eq (γ : Vector UInt8 v.blockBytes) (rest : List UInt8) :
    ∀ (offset : Nat) (feed : Vector UInt8 v.blockBytes), offset + rest.length ≤ v.blockBytes →
      ∃ feed', tail dir ⟨γ, feed, offset⟩ rest
        = some (⟨γ, feed', offset + rest.length⟩, cryptPiece γ rest) := by
  induction rest with
  | nil =>
    intro offset feed _
    exact ⟨feed, rfl⟩
  | cons b rest ih =>
    intro offset feed h
    rw [List.length_cons] at h
    have hbounds : (b :: rest).length ≤ v.blockBytes ∧ offset < v.blockBytes := by
      rw [List.length_cons]
      omega
    have hidx : v.blockBytes - (b :: rest).length < v.blockBytes := by
      rw [List.length_cons]
      omega
    have hoffset : offset + (b :: rest).length = offset + 1 + rest.length := by
      rw [List.length_cons]
      omega
    obtain ⟨feed', htail⟩ := ih (offset + 1)
      (feed.set offset
        (dir.ciphertext b (b ^^^ γ[v.blockBytes - (b :: rest).length])) hbounds.2) (by omega)
    refine ⟨feed', ?_⟩
    rw [tail, dif_pos hbounds, cryptPiece_cons γ b hbounds.1 hidx, hoffset]
    simp only [htail]

end Loops

/-! ## Reachable states -/

section Reachable

variable (p : Profile) {v : Variant}

/-- A state at a group boundary, whose next block is `γ`: fresh, or between two groups. -/
def Ready (cfb : Cfb v) (γ : Vector UInt8 v.blockBytes) : Prop :=
  cfb.usedGammaLen = v.blockBytes ∧ γ = cfb.key.encryptBlock p cfb.feed
    ∨ cfb.usedGammaLen = v.blockBytes - cfb.q ∧ γ = cfb.gamma

/-- A state inside a group. -/
def Spent (cfb : Cfb v) : Prop := cfb.usedGammaLen % cfb.q ≠ 0

theorem Ready.aligned {cfb : Cfb v} {γ : Vector UInt8 v.blockBytes} (h : Ready p cfb γ) :
    cfb.usedGammaLen % cfb.q = 0 := by
  have hdvd := width_dvd cfb.width
  rcases h with ⟨hused, -⟩ | ⟨hused, -⟩
  · rw [hused]
    exact Nat.mod_eq_zero_of_dvd hdvd
  · rw [hused]
    exact Nat.mod_eq_zero_of_dvd (Nat.dvd_sub hdvd (Nat.dvd_refl _))

/-- Whatever boundary the state is at, the main loop starts on the next block with the
offset of the last group. -/
theorem resume_ready {cfb : Cfb v} {γ : Vector UInt8 v.blockBytes} (h : Ready p cfb γ)
    (dir : Direction) (buf : List UInt8) :
    resume p dir cfb.key cfb.q ⟨cfb.gamma, cfb.feed, cfb.usedGammaLen⟩ buf
      = some (⟨γ, cfb.feed, v.blockBytes - cfb.q⟩, [], buf) := by
  have hle := width_le cfb.width
  have hpos := width_pos cfb.width
  obtain ⟨k, hk⟩ := width_dvd cfb.width
  unfold resume
  rcases h with ⟨hused, rfl⟩ | ⟨hused, rfl⟩
  · simp only [hused]
    rw [if_pos (by omega), leading_of_le dir (show cfb.q ≤ v.blockBytes from hle)]
    exact if_pos rfl
  · simp only [hused]
    split
    · -- `q` is smaller than the block, hence at most half of it
      have hhalf : cfb.q ≤ v.blockBytes - cfb.q := by
        rcases k with - | - | k
        · omega
        · omega
        · rw [hk, Nat.mul_succ, Nat.mul_succ]
          omega
      rw [leading_of_le dir (show cfb.q ≤ v.blockBytes - cfb.q from hhalf)]
      exact if_neg (by dsimp only; omega)
    · rfl

/-- A call from a ready state: what it writes, and the state it leaves. -/
theorem inPlace_ready {cfb : Cfb v} {γ : Vector UInt8 v.blockBytes} (h : Ready p cfb γ)
    (dir : Direction) (buf : List UInt8) :
    ∃ gamma feed used,
      cfb.inPlace p dir buf
          = some (.ok (), { cfb with gamma := gamma, feed := feed, usedGammaLen := used },
              crypt p cfb.key dir cfb.q (width_pos cfb.width) γ buf)
        ∧ gamma = after p cfb.key dir cfb.q (width_pos cfb.width) γ buf
        ∧ used = v.blockBytes - cfb.q + buf.length % cfb.q := by
  have hle := width_le cfb.width
  have hpos := width_pos cfb.width
  have hmod := Nat.mod_lt buf.length hpos
  obtain ⟨feed, written, left, hgroups, hleft, hout⟩ :=
    groups_eq p dir cfb.key hpos hle γ cfb.feed buf
  obtain ⟨feed', htail⟩ := tail_eq dir (after p cfb.key dir cfb.q hpos γ buf) left
    (v.blockBytes - cfb.q) feed (by omega)
  refine ⟨_, feed', _, ?_, rfl, rfl⟩
  unfold Cfb.inPlace
  rw [if_neg (not_not_intro h.aligned), resume_ready p h]
  simp only [hgroups, htail, List.nil_append, hout, hleft]

/-- A spent state refuses every call and keeps everything. -/
theorem inPlace_spent {cfb : Cfb v} (h : Spent cfb) (dir : Direction) (buf : List UInt8) :
    cfb.inPlace p dir buf = some (.error .nonAlignedIntermediateCall, cfb, buf) := by
  rw [Cfb.inPlace, if_pos (show cfb.usedGammaLen % cfb.q ≠ 0 from h)]

/-- One call of a sequence, in either direction: its result and the buffer it leaves. -/
def call (cfb : Cfb v) (c : Direction × List UInt8) :
    Option ((Except CfbError Unit × List UInt8) × Cfb v) :=
  match cfb.inPlace p c.1 c.2 with
  | none => none
  | some (result, cfb', buf) => some ((result, buf), cfb')

/-- The step lemma: everything a call from a ready state does. -/
theorem call_ready {cfb : Cfb v} {γ : Vector UInt8 v.blockBytes} (h : Ready p cfb γ)
    (dir : Direction) (buf : List UInt8) :
    ∃ gamma feed used,
      call p cfb (dir, buf)
          = some ((.ok (), crypt p cfb.key dir cfb.q (width_pos cfb.width) γ buf),
              { cfb with gamma := gamma, feed := feed, usedGammaLen := used })
        ∧ (cfb.q ∣ buf.length →
            Ready p { cfb with gamma := gamma, feed := feed, usedGammaLen := used }
              (after p cfb.key dir cfb.q (width_pos cfb.width) γ buf))
        ∧ (¬cfb.q ∣ buf.length →
            Spent { cfb with gamma := gamma, feed := feed, usedGammaLen := used }) := by
  obtain ⟨gamma, feed, used, hcall, rfl, rfl⟩ := inPlace_ready p h dir buf
  refine ⟨after p cfb.key dir cfb.q (width_pos cfb.width) γ buf, feed,
    v.blockBytes - cfb.q + buf.length % cfb.q, ?_, fun hdvd => .inr ⟨?_, rfl⟩, fun hndvd => ?_⟩
  · rw [call]
    simp only [hcall]
  · show v.blockBytes - cfb.q + buf.length % cfb.q = _
    rw [Nat.mod_eq_zero_of_dvd hdvd, Nat.add_zero]
  · show (v.blockBytes - cfb.q + buf.length % cfb.q) % cfb.q ≠ 0
    obtain ⟨k, hk⟩ := Nat.dvd_sub (width_dvd cfb.width) (Nat.dvd_refl cfb.q)
    rw [hk, Nat.mul_add_mod, Nat.mod_mod]
    exact fun hzero => hndvd (Nat.dvd_of_mod_eq_zero hzero)

theorem call_spent {cfb : Cfb v} (h : Spent cfb) (c : Direction × List UInt8) :
    call p cfb c = some ((.error .nonAlignedIntermediateCall, c.2), cfb) := by
  rw [call, inPlace_spent p h]

/-- Ready or spent, with the key and width the run started with. -/
def Reachable (key : ExpandedKey v) (q : Nat) (cfb : Cfb v) : Prop :=
  (cfb.key = key ∧ cfb.q = q) ∧ ((∃ γ, Ready p cfb γ) ∨ Spent cfb)

theorem call_reachable {key : ExpandedKey v} {q : Nat} (cfb : Cfb v) (c : Direction × List UInt8)
    (h : Reachable p key q cfb) :
    ∃ result cfb', call p cfb c = some (result, cfb') ∧ Reachable p key q cfb' := by
  obtain ⟨hsame, ⟨γ, hready⟩ | hspent⟩ := h
  · obtain ⟨gamma, feed, used, hcall, haligned, hunaligned⟩ := call_ready p hready c.1 c.2
    refine ⟨_, _, hcall, hsame, ?_⟩
    by_cases hdvd : cfb.q ∣ c.2.length
    · exact .inl ⟨_, haligned hdvd⟩
    · exact .inr (hunaligned hdvd)
  · exact ⟨_, cfb, call_spent p hspent c, hsame, .inr hspent⟩

/-- An unaligned call spends the state, unless it was spent already. -/
theorem call_unaligned {key : ExpandedKey v} {q : Nat} {cfb : Cfb v} (h : Reachable p key q cfb)
    (dir : Direction) {buf : List UInt8} (hbuf : ¬q ∣ buf.length) :
    ∃ result cfb', call p cfb (dir, buf) = some (result, cfb') ∧ Spent cfb' := by
  obtain ⟨⟨-, rfl⟩, ⟨γ, hready⟩ | hspent⟩ := h
  · obtain ⟨gamma, feed, used, hcall, -, hunaligned⟩ := call_ready p hready dir buf
    exact ⟨_, _, hcall, hunaligned hbuf⟩
  · exact ⟨_, cfb, call_spent p hspent _, hspent⟩

/-- A run from a spent state is refused call by call. -/
theorem run_spent {cfb : Cfb v} (h : Spent cfb) (calls : List (Direction × List UInt8)) :
    runAll (call p) cfb calls
      = some (calls.map fun c => (.error .nonAlignedIntermediateCall, c.2), cfb) := by
  induction calls with
  | nil => rfl
  | cons c calls ih =>
    exact runAll_cons_eq_some.mpr ⟨_, cfb, _, call_spent p h c, ih, rfl⟩

/-- All lengths are multiples of `q`, except possibly the last. -/
def Aligned (q : Nat) (bufs : List (List UInt8)) : Prop := ∀ buf ∈ bufs.dropLast, q ∣ buf.length

/-- The run lemma: aligned calls from a ready state write what one call would. -/
theorem run_aligned {cfb : Cfb v} {γ : Vector UInt8 v.blockBytes} (h : Ready p cfb γ)
    (dir : Direction) {bufs : List (List UInt8)} (hbufs : Aligned cfb.q bufs) :
    ∃ (outs : List (List UInt8)) (cfb' : Cfb v),
      runAll (call p) cfb (bufs.map (dir, ·)) = some (outs.map (.ok (), ·), cfb')
      ∧ outs.flatten = crypt p cfb.key dir cfb.q (width_pos cfb.width) γ bufs.flatten := by
  induction bufs generalizing cfb γ with
  | nil =>
    refine ⟨[], cfb, rfl, ?_⟩
    rw [List.flatten_nil, crypt_of_lt p cfb.key dir _ γ (width_pos cfb.width)]
    rfl
  | cons buf bufs ih =>
    obtain ⟨gamma, feed, used, hcall, haligned, -⟩ := call_ready p h dir buf
    cases bufs with
    | nil =>
      refine ⟨[_], _, runAll_cons_eq_some.mpr ⟨_, _, [], hcall, rfl, rfl⟩, ?_⟩
      rw [List.flatten_singleton, List.flatten_singleton]
    | cons buf' bufs =>
      have hdvd : cfb.q ∣ buf.length := hbufs buf (by simp)
      obtain ⟨outs, cfb', hrun, hout⟩ := ih (haligned hdvd) fun b hb => hbufs b (by
        rw [List.dropLast_cons_cons]
        exact List.mem_cons_of_mem _ hb)
      refine ⟨_ :: outs, cfb', runAll_cons_eq_some.mpr ⟨_, _, _, hcall, hrun, rfl⟩, ?_⟩
      rw [List.flatten_cons, List.flatten_cons, hout, crypt_append p cfb.key dir _ γ _ hdvd]

/-- `new` leaves a ready state. -/
theorem new_ready {key : Vector UInt8 v.keyBytes} {iv : Vector UInt8 v.blockBytes} {q : Nat}
    {cfb : Cfb v} (h : Cfb.new p v key iv q = .ok cfb) :
    cfb.q = q ∧ ∃ γ, Ready p cfb γ := by
  unfold Cfb.new at h
  split at h
  · cases h
    exact ⟨rfl, _, .inl ⟨rfl, rfl⟩⟩
  · cases h

end Reachable

/-- **CFB under any calls.** For every key, iv and admissible width: calls with aligned
boundaries write what one call writes, and decrypting that in any other aligned calls
gives the message back; no sequence of calls, in whatever directions and lengths,
panics; and after an unaligned call every later one is refused and changes nothing. -/
theorem cfb_calls (p : Profile) (v : Variant) (key : Vector UInt8 v.keyBytes)
    (iv : Vector UInt8 v.blockBytes) (q : Nat) (cfb : Cfb v)
    (hnew : Cfb.new p v key iv q = .ok cfb) :
    (∀ bufs, Aligned q bufs →
        ∃ (outs : List (List UInt8)) (s s' : Cfb v) (ciphertext : List UInt8),
          runAll (call p) cfb (bufs.map (.encrypt, ·)) = some (outs.map (.ok (), ·), s)
          ∧ cfb.encryptInPlace p bufs.flatten = some (.ok (), s', ciphertext)
          ∧ outs.flatten = ciphertext
          ∧ ∀ bufs', Aligned q bufs' → bufs'.flatten = ciphertext →
              ∃ (outs' : List (List UInt8)) (s'' : Cfb v),
                runAll (call p) cfb (bufs'.map (.decrypt, ·)) = some (outs'.map (.ok (), ·), s'')
                ∧ outs'.flatten = bufs.flatten)
    ∧ (∀ calls, ∃ outs s, runAll (call p) cfb calls = some (outs, s))
    ∧ (∀ calls dir buf, ¬q ∣ buf.length →
        ∃ outs s, runAll (call p) cfb (calls ++ [(dir, buf)]) = some (outs, s)
          ∧ ∀ later, runAll (call p) s later
              = some (later.map fun c => (.error .nonAlignedIntermediateCall, c.2), s)) := by
  obtain ⟨rfl, γ, hready⟩ := new_ready p hnew
  have hreachable : Reachable p cfb.key cfb.q cfb := ⟨⟨rfl, rfl⟩, .inl ⟨γ, hready⟩⟩
  have htotal := runAll_total (call_reachable p) hreachable
  refine ⟨?_, ?_, ?_⟩
  · intro bufs hbufs
    obtain ⟨outs, s, hrun, hout⟩ := run_aligned p hready .encrypt hbufs
    obtain ⟨gamma, feed, used, hone, -, -⟩ := inPlace_ready p hready .encrypt bufs.flatten
    refine ⟨outs, s, _, _, hrun, hone, hout, fun bufs' hbufs' hflat => ?_⟩
    obtain ⟨outs', s'', hrun', hout'⟩ := run_aligned p hready .decrypt hbufs'
    refine ⟨outs', s'', hrun', ?_⟩
    rw [hout', hflat, crypt_decrypt_encrypt p cfb.key _ (width_le cfb.width)]
  · intro calls
    obtain ⟨outs, s, hrun, -⟩ := htotal calls
    exact ⟨outs, s, hrun⟩
  · intro calls dir buf hbuf
    obtain ⟨outs, s, hrun, hs⟩ := htotal calls
    obtain ⟨result, s', hcall, hspent⟩ := call_unaligned p hs dir hbuf
    have hlast : runAll (call p) s [(dir, buf)] = some ([result], s') :=
      runAll_cons_eq_some.mpr ⟨_, _, [], hcall, rfl, rfl⟩
    exact ⟨_, s', runAll_append hrun hlast, run_spent p hspent⟩

/-- Eight-byte feedback over 128-bit blocks. -/
theorem cfb_calls_width_eight :
    ∃ cfb, Cfb.new .fused .kalyna128_128 (Vector.replicate 16 0) (Vector.replicate 16 0) 8 = .ok cfb
      ∧ ∀ calls, ∃ outs s, runAll (call .fused) cfb calls = some (outs, s) := by
  have hnew : Cfb.new .fused .kalyna128_128 (Vector.replicate 16 0) (Vector.replicate 16 0) 8
      = .ok _ := dif_pos (by decide)
  exact ⟨_, hnew, (cfb_calls .fused .kalyna128_128 _ _ 8 _ hnew).2.1⟩

end UaCrypt.Hazmat.KalynaCfb
