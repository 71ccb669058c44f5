import UaCrypt.Secretstream.Session
import UaCrypt.Lib.Channel

/-!
# A secretstream over an untrusted network

The pushing side and the pulling side of one session, with an adversary between them
that delivers any chunks it likes, at any moment of the sender's calls. The one
assumption is the cipher's: what its `decrypt` accepts under an IV and an AAD is a
ciphertext and a tag that `push` made with that IV and that AAD.

- `link`: push and pull as a `Channel.Link`, the counter in the IV being the position.
- `channel_safe`: the chunks pulled are a prefix of the chunks pushed, the next genuine
  chunk is pulled whatever came before it, and who pulled a `Final` chunk has pulled the
  whole stream.
-/

namespace UaCrypt.Secretstream

open Hazmat Channel

/-- What the cipher authenticates for a chunk. -/
structure GcmRecord where
  iv : Vector UInt8 32
  aad : Vector UInt8 17
  ciphertext : List UInt8
  authTag : Vector UInt8 16

/-- What `push` and `pull` hand to the cipher, or get from it, for a transmitted chunk. -/
def gcmRecord (st : PushState) (wire : Wire) : GcmRecord where
  iv := chunkIv st.counter
  aad := chunkAad st.counter wire.tagByte wire.ciphertext.length
  ciphertext := wire.ciphertext
  authTag := wire.authTag

/-- The IV holds the position, and the rest of the record holds the chunk. -/
theorem gcmRecord_injective {st st' : PushState} {wire wire' : Wire}
    (h : gcmRecord st wire = gcmRecord st' wire') :
    st.counter.toNat = st'.counter.toNat ∧ wire = wire' := by
  obtain ⟨tagByte, ciphertext, authTag⟩ := wire
  obtain ⟨tagByte', ciphertext', authTag'⟩ := wire'
  simp only [gcmRecord, GcmRecord.mk.injEq] at h
  obtain ⟨hiv, haad, rfl, rfl⟩ := h
  obtain ⟨-, rfl, -⟩ := chunkAad_inj haad
  rw [chunkIv_inj hiv]
  exact ⟨rfl, rfl⟩

/-- A session's two halves. -/
def link (b : Build) : Link PushState PullState Chunk Wire GcmRecord where
  send := PushState.pushChunk b
  recv := PullState.pullChunk b
  mate := PullState.toPush
  record := gcmRecord
  position st := st.counter.toNat
  recv_iff := pullChunk_eq_some_iff b
  mate_surjective st := ⟨st.toPull, rfl⟩
  position_send h := by
    obtain ⟨rfl, hctr⟩ := next_of_pushChunk b h
    exact toNat_succ hctr
  record_injective := gcmRecord_injective

/-- After a `Final` chunk nothing is pushed. -/
theorem pushChunk_after_final (b : Build) {st st' : PushState} {chunk : Chunk} {wire : Wire}
    (h : st.pushChunk b chunk = some (wire, st')) (hfinal : chunk.1 = .final) (chunk' : Chunk) :
    st'.pushChunk b chunk' = none := by
  obtain ⟨rfl, -⟩ := next_of_pushChunk b h
  have hclosed : (st.next b chunk.1).finalized = true := by
    rw [PushState.next, if_pos hfinal]
  rw [PushState.pushChunk, PushState.push, if_pos hclosed]

/-- **The channel is safe.** For every key and header, in every run of pushes and
deliveries in any order, where each delivery that is pulled has a record that an earlier
push made: the chunks pulled so far are a prefix of the chunks pushed; the genuine chunk
that comes next is pulled if it is delivered, whatever was delivered and refused before
it; and once a `Final` chunk is pulled, all that was pushed is. -/
theorem channel_safe (b : Build) (key header : Vector UInt8 32) (actions : List (Action Chunk Wire))
    (hunforged : Unforged (link b) (Net.start (link b) (PullState.init b key header)) actions) :
    ∃ n, n = (Net.start (link b) (PullState.init b key header)).run (link b) actions
      ∧ n.received <+: n.sent
      ∧ (∀ wire, n.wires[n.received.length]? = some wire →
          ∃ chunk pull, n.sent[n.received.length]? = some chunk
            ∧ n.receiver.pullChunk b wire = some (chunk, pull))
      ∧ ((∃ chunk ∈ n.received, chunk.1 = .final) → n.received = n.sent) := by
  have hstep := inStep_run (inStep_start (PullState.init b key header)) hunforged
  refine ⟨_, rfl, hstep.received_prefix, fun wire hwire => hstep.next_accepted hwire, ?_⟩
  rintro ⟨chunk, hmem, hfinal⟩
  exact hstep.received_all (fun chunk => chunk.1 = .final)
    (fun hsend hcloses => pushChunk_after_final b hsend hcloses) hmem hfinal

/-- A forged chunk first, then a genuine one. -/
theorem channel_safe_one : ∃ (wire : Wire) (n : Net PushState PullState Chunk Wire GcmRecord),
    n = (Net.start (link ⟨.fused, false⟩) (PullState.init ⟨.fused, false⟩ (Vector.replicate 32 0)
        (Vector.replicate 32 1))).run (link ⟨.fused, false⟩)
        [.deliver ⟨9, [], Vector.replicate 16 0⟩, .send (.final, [7]), .deliver wire]
      ∧ n.received <+: n.sent
      ∧ (∀ wire, n.wires[n.received.length]? = some wire →
          ∃ chunk pull, n.sent[n.received.length]? = some chunk
            ∧ n.receiver.pullChunk ⟨.fused, false⟩ wire = some (chunk, pull))
      ∧ ((∃ chunk ∈ n.received, chunk.1 = .final) → n.received = n.sent) := by
  have hopen : (PushState.start ⟨.fused, false⟩ (Vector.replicate 32 0)
      (Vector.replicate 32 1)).counter.toNat + 1 < 2 ^ 64 := by decide
  have hlen : ((.final, [7]) : Chunk).2.length * 8 < 2 ^ 64 := by decide
  obtain ⟨wire, hwire⟩ := pushChunk_of_open ⟨.fused, false⟩ rfl hopen hlen
  -- the tag byte 9 is refused before the cipher is asked
  exact ⟨wire, channel_safe ⟨.fused, false⟩ (Vector.replicate 32 0) (Vector.replicate 32 1) _
    (unforged_of_refused rfl hwire)⟩

end UaCrypt.Secretstream
