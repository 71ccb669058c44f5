import UaCrypt.Cli.OutputFile
import UaCrypt.Hazmat.Kupyna

/-!
# The key line (`keyfile.rs`)

A key file is one line `<prefix>:<hex key>:<hex check>`, the check value a hash of prefix and
key. Hex digits are written and read without a branch on them.

- `encode`, `decode`, `readKey`.
- `decodeLine_eq_ok_iff`: the one line that decodes to a key.
- `keyfile_codec`: the round trip, its converse, and what the recognisers agree on.
-/

namespace UaCrypt.Cli

open FileTree Hazmat.Tables Hazmat.Kupyna

/-- The raw length of a key. -/
def KeyKind.keyLen : KeyKind → Nat
  | .sign163Secret => 21
  | .symmetric | .box256Secret | .box256Public => 32
  | .sign257Secret => 33
  | .sign163Public => 42
  | .box384Secret | .box384Public => 48
  | .sign257Public => 66
  | .box512Secret | .box512Public => 64

namespace KeyCodec

/-- `CHECK_LEN`. -/
def checkLen : Nat := 4

/-- `MAX_KEY_FILE_BYTES`. -/
def maxKeyFileBytes : Nat := 256

/-- `CHECK_DOMAIN`. -/
def checkDomain : List UInt8 := asciiBytes "uacrypt-key-v1"

inductive DecodeError where
  | notTyped
  | malformed (kind : KeyKind)
  | checkMismatch (kind : KeyKind)
  deriving DecidableEq, Repr

section Codec

variable (p : Profile)

@[irreducible] def checkValue (kind : KeyKind) (key : List UInt8) : List UInt8 :=
  let hasher := Hasher.new .kupyna256
  let hasher := hasher.update p checkDomain
  let hasher := hasher.update p [0]
  let hasher := hasher.update p (asciiBytes kind.prefixText)
  let hasher := hasher.update p [0]
  let hasher := hasher.update p key
  (hasher.finalize p).toList.take checkLen

/-- `i32::from`. -/
def i32 (byte : UInt8) : Int32 := byte.toUInt32.toInt32

/-- `as u8`. -/
def asU8 (x : Int32) : UInt8 := x.toUInt32.toUInt8

/-- The lower-case hex digit of `n`. -/
def hexDigit (n : UInt8) : UInt8 :=
  let n := i32 n
  let letterGap := ((9 - n) >>> 31) &&& (i32 0x61 - i32 0x30 - 10)
  asU8 (n + i32 0x30 + letterGap)

/-- The value of a lower-case hex digit and 1, else twice 0. -/
def hexValue (c : UInt8) : UInt8 × UInt8 :=
  let c := i32 c
  let d := c - i32 0x30
  let l := c - i32 0x61 + 10
  let dOk := ~~~((d ||| (9 - d)) >>> 31) &&& 1
  let lOk := ~~~(((l - 10) ||| (15 - l)) >>> 31) &&& 1
  let value := (d &&& -dOk) ||| (l &&& -lOk)
  (asU8 value, asU8 (dOk ||| lOk))

/-- The loop of `decode_hex`: the bytes of `out` take the values of the digit pairs. -/
def decodeHexLoop : List UInt8 → List UInt8 → UInt8 → List UInt8 × UInt8
  | _ :: out, hiDigit :: loDigit :: hex, ok =>
    let (hi, hiOk) := hexValue hiDigit
    let (lo, loOk) := hexValue loDigit
    let (out, ok) := decodeHexLoop out hex (ok &&& (hiOk &&& loOk))
    (((hi <<< 4) ||| lo) :: out, ok)
  | out, _, ok => (out, ok)

/-- The bytes, and 1 if every digit was valid. -/
def decodeHex (hex out : List UInt8) : List UInt8 × UInt8 := decodeHexLoop out hex 1

/-- The two digits of every byte. -/
def encodeHex (bytes : List UInt8) : List UInt8 :=
  bytes.flatMap fun byte : UInt8 => [hexDigit (byte >>> 4), hexDigit (byte &&& 0x0f)]

/-- The key line of a key of the kind's length, with its `\n`. -/
def encode (kind : KeyKind) (key : List UInt8) : List UInt8 :=
  let check := checkValue p kind key
  asciiBytes kind.prefixText ++ [0x3a] ++ encodeHex key ++ [0x3a] ++ encodeHex check ++ [0x0a]

/-- `slice::strip_suffix`. -/
def stripBack (back text : List UInt8) : Option (List UInt8) :=
  if back = text.drop (text.length - back.length) then some (text.take (text.length - back.length))
  else none

/-- The text without its last `\r\n` or `\n`. -/
def stripNewline (text : List UInt8) : List UInt8 :=
  ((stripBack [0x0d, 0x0a] text).or (stripBack [0x0a] text)).getD text

/-- The test `decode` makes for one kind. -/
def isLineOf (text : List UInt8) (kind : KeyKind) : Bool :=
  let front := asciiBytes kind.prefixText
  decide (front.length < text.length) && front.isPrefixOf text
    && decide (text[front.length]? = some 0x3a)

/-- The two hex fields, once they are in their places. -/
def decodeFields (kind : KeyKind) (keyHex checkHex : List UInt8) :
    Except DecodeError (KeyKind × List UInt8) :=
  let (key, keyOk) := decodeHex keyHex (List.replicate kind.keyLen 0)
  let (check, checkOk) := decodeHex checkHex (List.replicate checkLen 0)
  if keyOk &&& checkOk ≠ 1 then .error (.malformed kind)
  else if checkValue p kind key ≠ check then .error (.checkMismatch kind)
  else .ok (kind, key)

/-- What `decode` makes of the line. -/
def decodeLine (text : List UInt8) : Except DecodeError (KeyKind × List UInt8) :=
  match allKinds.find? (isLineOf text) with
  | none => .error .notTyped
  | some kind =>
    let keyStart := (asciiBytes kind.prefixText).length + 1
    let keyEnd := keyStart + 2 * kind.keyLen
    if text.length ≠ keyEnd + 1 + 2 * checkLen ∨ text[keyEnd]? ≠ some 0x3a then
      .error (.malformed kind)
    else
      decodeFields p kind ((text.drop keyStart).take (keyEnd - keyStart)) (text.drop (keyEnd + 1))

/-- Parses one key line. -/
def decode (text : List UInt8) : Except DecodeError (KeyKind × List UInt8) :=
  decodeLine p (stripNewline text)

/-- The errors of `read_key`. -/
inductive KeyError where
  | io (path : PathName) (message : String)
  | keyFileNotTyped (path : PathName)
  | keyFileMalformed (path : PathName) (kind : KeyKind)
  | keyCheckMismatch (path : PathName) (kind : KeyKind)
  | keyKindMismatch (path : PathName) (command : String) (found : KeyKind) (expected : List KeyKind)
  deriving DecidableEq, Repr

/-- The file behind `--key`, only so far that a longer one cannot be a key line. -/
def readKeyText (cwd : Loc) (fault : Option Errno) (disk : Disk) (path : PathName) :
    Except IoError (List UInt8) :=
  match fault with
  | some e => .error (.ofErrno e)
  | none =>
    match disk.resolve cwd path with
    | .error e => .error (.ofErrno e)
    | .ok l =>
      match disk.node l with
      | some (.file data) => .ok (data.take (maxKeyFileBytes + 1))
      | _ => .error (.ofErrno .isdir)

/-- Reads `--key` for `command`. -/
def readKey (cwd : Loc) (fault : Option Errno) (disk : Disk) (path : PathName) (command : String)
    (expected : List KeyKind) : Except KeyError (KeyKind × List UInt8) :=
  match readKeyText cwd fault disk path with
  | .error e => .error (.io path e.message)
  | .ok text =>
    match decode p text with
    | .error .notTyped => .error (.keyFileNotTyped path)
    | .error (.malformed kind) => .error (.keyFileMalformed path kind)
    | .error (.checkMismatch kind) => .error (.keyCheckMismatch path kind)
    | .ok (kind, key) =>
      if kind ∈ expected then .ok (kind, key)
      else .error (.keyKindMismatch path command kind expected)

end Codec

/-! ## Hex -/

/-- What holds of the bytes by number. -/
theorem forall_byte {P : UInt8 → Prop} (h : ∀ c : Fin 256, P (UInt8.ofNat c)) (c : UInt8) : P c := by
  have hc := h ⟨c.toNat, UInt8.toNat_lt c⟩
  rwa [UInt8.ofNat_toNat] at hc

theorem hexValue_hexDigit (n : UInt8) : n < 16 → hexValue (hexDigit n) = (n, 1) :=
  forall_byte (P := fun n => n < 16 → hexValue (hexDigit n) = (n, 1)) (by decide +kernel) n

/-- A byte that counts as a digit is the digit of its value. -/
theorem hexValue_cases (c : UInt8) : hexValue c = (0, 0) ∨
    (hexValue c).2 = 1 ∧ (hexValue c).1 < 16 ∧ hexDigit (hexValue c).1 = c :=
  forall_byte (P := fun c => hexValue c = (0, 0) ∨
    (hexValue c).2 = 1 ∧ (hexValue c).1 < 16 ∧ hexDigit (hexValue c).1 = c) (by decide +kernel) c

theorem halves_lt (byte : UInt8) : byte >>> 4 < 16 ∧ byte &&& 0x0f < 16 :=
  forall_byte (P := fun byte => byte >>> 4 < 16 ∧ byte &&& 0x0f < 16) (by decide +kernel) byte

theorem join_halves (byte : UInt8) : ((byte >>> 4) <<< 4) ||| (byte &&& 0x0f) = byte :=
  forall_byte (P := fun byte => ((byte >>> 4) <<< 4) ||| (byte &&& 0x0f) = byte)
    (by decide +kernel) byte

theorem halves_join {hi lo : UInt8} (hhi : hi < 16) (hlo : lo < 16) :
    ((hi <<< 4) ||| lo) >>> 4 = hi ∧ ((hi <<< 4) ||| lo) &&& 0x0f = lo := by
  have hall : ∀ a b : Fin 16, let hi := UInt8.ofNat a; let lo := UInt8.ofNat b
      ((hi <<< 4) ||| lo) >>> 4 = hi ∧ ((hi <<< 4) ||| lo) &&& 0x0f = lo := by decide +kernel
  have h := hall ⟨hi.toNat, hhi⟩ ⟨lo.toNat, hlo⟩
  simpa only [UInt8.ofNat_toNat] using h

theorem encodeHex_append (xs ys : List UInt8) :
    encodeHex (xs ++ ys) = encodeHex xs ++ encodeHex ys :=
  List.flatMap_append

@[simp] theorem length_encodeHex (bytes : List UInt8) :
    (encodeHex bytes).length = 2 * bytes.length := by
  induction bytes with
  | nil => rfl
  | cons byte bytes ih =>
    rw [encodeHex, List.flatMap_cons, List.length_append, ← encodeHex, ih, List.length_cons]
    show 2 + 2 * bytes.length = 2 * (bytes.length + 1)
    omega

theorem encodeHex_cons (byte : UInt8) (bytes : List UInt8) :
    encodeHex (byte :: bytes)
      = hexDigit (byte >>> 4) :: hexDigit (byte &&& 0x0f) :: encodeHex bytes := rfl

theorem decodeHexLoop_encodeHex (bytes out : List UInt8) (h : out.length = bytes.length) :
    decodeHexLoop out (encodeHex bytes) 1 = (bytes, 1) := by
  induction bytes generalizing out with
  | nil =>
    obtain rfl := List.eq_nil_of_length_eq_zero h
    rfl
  | cons byte bytes ih =>
    cases out with
    | nil => cases h
    | cons b out =>
      obtain ⟨hhi, hlo⟩ := halves_lt byte
      have hok : (1 : UInt8) &&& (1 &&& 1) = 1 := by decide
      rw [encodeHex_cons, decodeHexLoop, hexValue_hexDigit _ hhi, hexValue_hexDigit _ hlo]
      dsimp only
      rw [hok, ih out (Nat.succ.inj h), join_halves]

theorem decodeHex_encodeHex (bytes out : List UInt8) (h : out.length = bytes.length) :
    decodeHex (encodeHex bytes) out = (bytes, 1) :=
  decodeHexLoop_encodeHex bytes out h

@[simp] theorem length_decodeHexLoop (out hex : List UInt8) (ok : UInt8) :
    (decodeHexLoop out hex ok).1.length = out.length := by
  induction out generalizing hex ok with
  | nil => rfl
  | cons b out ih =>
    match hex with
    | [] => rfl
    | [_] => rfl
    | _ :: _ :: _ =>
      rw [decodeHexLoop]
      exact congrArg Nat.succ (ih _ _)

/-- The flag never comes back, and while it stands the digits are those of the bytes read. -/
theorem encodeHex_decodeHexLoop {out hex : List UInt8} {ok : UInt8} (hok : ok = 0 ∨ ok = 1)
    (hlen : hex.length = 2 * out.length) (h : (decodeHexLoop out hex ok).2 = 1) :
    ok = 1 ∧ encodeHex (decodeHexLoop out hex ok).1 = hex := by
  induction out generalizing hex ok with
  | nil =>
    obtain rfl := List.eq_nil_of_length_eq_zero hlen
    exact ⟨h, rfl⟩
  | cons b out ih =>
    rw [List.length_cons] at hlen
    match hex, hlen with
    | hiDigit :: loDigit :: hex, hlen =>
      simp only [List.length_cons] at hlen
      rw [decodeHexLoop] at h ⊢
      dsimp only at h ⊢
      have hnext : ok &&& ((hexValue hiDigit).2 &&& (hexValue loDigit).2) = 0
          ∨ ok = 1 ∧ (hexValue hiDigit).2 = 1 ∧ (hexValue loDigit).2 = 1 := by
        obtain rfl | rfl := hok
        · exact .inl (UInt8.zero_and)
        · obtain hhi | ⟨hhi, -, -⟩ := hexValue_cases hiDigit
          · exact .inl (by rw [hhi]; simp)
          · obtain hlo | ⟨hlo, -, -⟩ := hexValue_cases loDigit
            · exact .inl (by rw [hlo]; simp)
            · exact .inr ⟨rfl, hhi, hlo⟩
      obtain hzero | ⟨rfl, hhi, hlo⟩ := hnext
      · rw [hzero] at h
        exact absurd (ih (.inl rfl) (by omega) h).1 (by decide)
      · rw [hhi, hlo, show (1 : UInt8) &&& (1 &&& 1) = 1 by decide] at h ⊢
        obtain ⟨-, hrest⟩ := ih (.inr rfl) (by omega) h
        obtain hbad | ⟨-, hhiLt, hhiDigit⟩ := hexValue_cases hiDigit
        · exact absurd (congrArg Prod.snd hbad) (by rw [hhi]; decide)
        obtain hbad | ⟨-, hloLt, hloDigit⟩ := hexValue_cases loDigit
        · exact absurd (congrArg Prod.snd hbad) (by rw [hlo]; decide)
        obtain ⟨hjoinHi, hjoinLo⟩ := halves_join hhiLt hloLt
        refine ⟨rfl, ?_⟩
        rw [encodeHex_cons, hjoinHi, hjoinLo, hhiDigit, hloDigit, hrest]

theorem decodeHexLoop_flag (out hex : List UInt8) {ok : UInt8} (hok : ok = 0 ∨ ok = 1) :
    (decodeHexLoop out hex ok).2 = 0 ∨ (decodeHexLoop out hex ok).2 = 1 := by
  induction out generalizing hex ok with
  | nil => exact hok
  | cons b out ih =>
    match hex with
    | [] => exact hok
    | [_] => exact hok
    | hiDigit :: loDigit :: hex =>
      have hflag (c : UInt8) : (hexValue c).2 = 0 ∨ (hexValue c).2 = 1 :=
        (hexValue_cases c).imp (congrArg Prod.snd) And.left
      rw [decodeHexLoop]
      refine ih hex ?_
      obtain hhi | hhi := hflag hiDigit <;> obtain hlo | hlo := hflag loDigit <;>
        obtain rfl | rfl := hok <;> rw [hhi, hlo] <;> decide

/-- Either some digit is bad, or the digits are those of the bytes read. -/
theorem decodeHex_cases {hex out : List UInt8} (hlen : hex.length = 2 * out.length) :
    (decodeHex hex out).2 = 0
      ∨ ∃ bytes, bytes.length = out.length ∧ hex = encodeHex bytes
        ∧ decodeHex hex out = (bytes, 1) := by
  refine (decodeHexLoop_flag out hex (.inr rfl)).imp id ?_
  intro h
  refine ⟨_, length_decodeHexLoop out hex 1, ?_, Prod.ext rfl h⟩
  exact (encodeHex_decodeHexLoop (.inr rfl) hlen h).2.symm

/-! ## Line ends -/

theorem stripBack_eq_some_iff {back text rest : List UInt8} :
    stripBack back text = some rest ↔ text = rest ++ back := by
  constructor
  · intro h
    rw [stripBack] at h
    split at h
    · rename_i hback
      rw [Option.some.injEq] at h
      calc text = text.take (text.length - back.length) ++ text.drop (text.length - back.length) :=
            (List.take_append_drop _ _).symm
        _ = rest ++ back := by rw [h, ← hback]
    · cases h
  · rintro rfl
    have hlen : (rest ++ back).length - back.length = rest.length := by
      rw [List.length_append, Nat.add_sub_cancel]
    rw [stripBack, hlen, List.drop_left, List.take_left, if_pos rfl]

theorem stripNewline_cases (text : List UInt8) : text = stripNewline text
    ∨ text = stripNewline text ++ [0x0a] ∨ text = stripNewline text ++ [0x0d, 0x0a] := by
  rw [stripNewline]
  cases hcrlf : stripBack [0x0d, 0x0a] text with
  | some rest => exact .inr (.inr (stripBack_eq_some_iff.mp hcrlf))
  | none =>
    cases hlf : stripBack [0x0a] text with
    | some rest => exact .inr (.inl (stripBack_eq_some_iff.mp hlf))
    | none => exact .inl rfl

/-- All three spellings, of a line that does not itself end in one of the two bytes. -/
theorem stripNewline_append {text : List UInt8} (hcr : text.getLast? ≠ some 0x0d)
    (hlf : text.getLast? ≠ some 0x0a) : stripNewline text = text
      ∧ stripNewline (text ++ [0x0a]) = text ∧ stripNewline (text ++ [0x0d, 0x0a]) = text := by
  have hnone {back other : List UInt8} (h : ∀ rest, other ≠ rest ++ back) :
      stripBack back other = none :=
    Option.eq_none_iff_forall_ne_some.mpr fun rest hrest => h rest (stripBack_eq_some_iff.mp hrest)
  refine ⟨?_, ?_, ?_⟩
  · rw [stripNewline, hnone, hnone]
    · rfl
    · rintro rest rfl
      exact hlf (by simp)
    · rintro rest rfl
      exact hlf (by simp)
  · rw [stripNewline, hnone, stripBack_eq_some_iff.mpr rfl]
    · rfl
    · intro rest h
      have hsplit : text ++ [0x0a] = (rest ++ [0x0d]) ++ [0x0a] := by rw [h, List.append_assoc]; rfl
      rw [List.append_cancel_right hsplit] at hcr
      exact hcr (by simp)
  · rw [stripNewline, stripBack_eq_some_iff.mpr rfl]
    rfl

/-! ## Kinds -/

/-- How the key line of a kind begins. -/
def lineStart (kind : KeyKind) : List UInt8 := asciiBytes kind.prefixText ++ [0x3a]

theorem lineStart_prefix_free :
    ∀ kind ∈ allKinds, ∀ other ∈ allKinds, lineStart kind <+: lineStart other → kind = other := by
  decide +kernel

theorem mem_allKinds (kind : KeyKind) : kind ∈ allKinds := by
  cases kind <;> decide

theorem startsKeyLine_iff {head : List UInt8} {kind : KeyKind} :
    startsKeyLine head kind = true ↔ lineStart kind <+: head := by
  rw [startsKeyLine, stripFront]
  constructor
  · intro h
    split at h
    · cases h
    · rename_i rest hrest
      split at hrest
      · rename_i hfront
        rw [Option.some.injEq] at hrest
        obtain ⟨tail, htail⟩ := List.head?_eq_some_iff.mp (of_decide_eq_true h)
        refine ⟨tail, ?_⟩
        rw [lineStart, List.append_assoc]
        nth_rewrite 1 [hfront]
        rw [List.singleton_append, ← htail, ← hrest, List.take_append_drop]
      · cases hrest
  · rintro ⟨rest, rfl⟩
    rw [lineStart, List.append_assoc, List.take_left, if_pos rfl, List.drop_left]
    rfl

/-- The two recognisers agree. -/
theorem isLineOf_eq (text : List UInt8) (kind : KeyKind) :
    isLineOf text kind = startsKeyLine text kind := by
  rw [Bool.eq_iff_iff, startsKeyLine_iff, isLineOf]
  simp only [Bool.and_eq_true, decide_eq_true_eq, List.isPrefixOf_iff_prefix]
  constructor
  · rintro ⟨⟨hlen, rest, rfl⟩, hcolon⟩
    rw [List.getElem?_append_right (Nat.le_refl _), Nat.sub_self] at hcolon
    obtain ⟨tail, rfl⟩ := List.head?_eq_some_iff.mp (List.head?_eq_getElem?.trans hcolon)
    exact ⟨tail, by rw [lineStart, List.append_assoc]; rfl⟩
  · rintro ⟨rest, rfl⟩
    rw [lineStart, List.append_assoc]
    refine ⟨⟨by simp, List.prefix_append _ _⟩, ?_⟩
    rw [List.getElem?_append_right (Nat.le_refl _), Nat.sub_self]
    rfl

/-- A file starts like the line of one kind at most. -/
theorem find_startsKeyLine_iff {head : List UInt8} {kind : KeyKind} :
    allKinds.find? (startsKeyLine head) = some kind ↔ lineStart kind <+: head := by
  constructor
  · intro h
    exact startsKeyLine_iff.mp (List.find?_some h)
  · intro h
    cases hfind : allKinds.find? (startsKeyLine head) with
    | none =>
      have hno := List.find?_eq_none.mp hfind kind (mem_allKinds kind)
      exact absurd (startsKeyLine_iff.mpr h) hno
    | some other =>
      have hother := startsKeyLine_iff.mp (List.find?_some hfind)
      rw [Option.some.injEq]
      obtain hle | hle := List.prefix_or_prefix_of_prefix hother h
      · exact lineStart_prefix_free other (mem_allKinds other) kind (mem_allKinds kind) hle
      · exact (lineStart_prefix_free kind (mem_allKinds kind) other (mem_allKinds other) hle).symm

theorem find_isLineOf_iff {text : List UInt8} {kind : KeyKind} :
    allKinds.find? (isLineOf text) = some kind ↔ lineStart kind <+: text := by
  rw [funext (isLineOf_eq text), find_startsKeyLine_iff]

/-- A key line does not start with a byte order mark. -/
theorem sniffKind_of_prefix {head : List UInt8} {kind : KeyKind} (h : lineStart kind <+: head) :
    sniffKind head = some kind := by
  have hnobom : stripFront bom head = none := by
    obtain ⟨rest, rfl⟩ := h
    cases kind <;> rfl
  rw [sniffKind, hnobom, Option.getD_none, find_startsKeyLine_iff]
  exact h

theorem length_lineStart (kind : KeyKind) :
    (lineStart kind).length = (asciiBytes kind.prefixText).length + 1 := by
  rw [lineStart, List.length_append, List.length_singleton]

/-! ## The line -/

section Line

variable (p : Profile)

@[simp] theorem length_checkValue (kind : KeyKind) (key : List UInt8) :
    (checkValue p kind key).length = checkLen := by
  rw [checkValue, List.length_take, Vector.length_toList]
  rfl

/-- The key line without its end. -/
def keyLine (kind : KeyKind) (key : List UInt8) : List UInt8 :=
  lineStart kind ++ encodeHex key ++ [0x3a] ++ encodeHex (checkValue p kind key)

theorem encode_eq (kind : KeyKind) (key : List UInt8) :
    encode p kind key = keyLine p kind key ++ [0x0a] := rfl

/-- A separator at its place. -/
theorem exists_separator_iff {rest : List UInt8} {n m : Nat} {c : UInt8} :
    ¬(rest.length ≠ n + 1 + m ∨ rest[n]? ≠ some c)
      ↔ ∃ front back, front.length = n ∧ back.length = m ∧ rest = front ++ c :: back := by
  rw [not_or, not_not, not_not]
  constructor
  · rintro ⟨hlen, hsep⟩
    obtain ⟨hlt, hget⟩ := List.getElem?_eq_some_iff.mp hsep
    refine ⟨rest.take n, rest.drop (n + 1), ?_, ?_, ?_⟩
    · rw [List.length_take, Nat.min_eq_left (Nat.le_of_lt hlt)]
    · rw [List.length_drop, hlen]
      omega
    · rw [← hget, ← List.drop_eq_getElem_cons hlt, List.take_append_drop]
  · rintro ⟨front, back, rfl, rfl, rfl⟩
    refine ⟨?_, ?_⟩
    · rw [List.length_append, List.length_cons]
      omega
    · rw [List.getElem?_append_right (Nat.le_refl _), Nat.sub_self]
      rfl

/-- A line that starts with the prefix of a kind. -/
theorem decodeLine_lineStart (kind : KeyKind) (rest : List UInt8) :
    decodeLine p (lineStart kind ++ rest)
      = if rest.length ≠ 2 * kind.keyLen + 1 + 2 * checkLen ∨ rest[2 * kind.keyLen]? ≠ some 0x3a then
          .error (.malformed kind)
        else decodeFields p kind (rest.take (2 * kind.keyLen)) (rest.drop (2 * kind.keyLen + 1)) := by
  have hfind := find_isLineOf_iff.mpr (List.prefix_append (lineStart kind) rest)
  have hlen : (lineStart kind ++ rest).length
      = (lineStart kind).length + (2 * kind.keyLen + 1 + 2 * checkLen)
        ↔ rest.length = 2 * kind.keyLen + 1 + 2 * checkLen := by
    rw [List.length_append]
    omega
  have hget : (lineStart kind ++ rest)[(lineStart kind).length + 2 * kind.keyLen]?
      = rest[2 * kind.keyLen]? := by
    rw [List.getElem?_append_right (Nat.le_add_right _ _), Nat.add_sub_cancel_left]
  rw [decodeLine, hfind]
  simp only [← length_lineStart, hlen, hget, ne_eq, Nat.add_sub_cancel_left, List.drop_left,
    Nat.add_assoc (lineStart kind).length, List.drop_length_add_append]

theorem decodeLine_of_find_none {text : List UInt8} (h : allKinds.find? (isLineOf text) = none) :
    decodeLine p text = .error .notTyped := by
  rw [decodeLine, h]

/-- Two fields that decode are those of a key and its check value. -/
theorem decodeFields_eq_ok_iff {kind found : KeyKind} {key keyHex checkHex : List UInt8}
    (hkey : keyHex.length = 2 * found.keyLen) (hcheck : checkHex.length = 2 * checkLen) :
    decodeFields p found keyHex checkHex = .ok (kind, key)
      ↔ found = kind ∧ key.length = kind.keyLen ∧ keyHex = encodeHex key
        ∧ checkHex = encodeHex (checkValue p kind key) := by
  constructor
  · intro h
    rw [decodeFields] at h
    dsimp only at h
    obtain hbad | ⟨bytes, hbytes, rfl, hdecode⟩ := decodeHex_cases
      (show keyHex.length = 2 * (List.replicate found.keyLen (0 : UInt8)).length by
        rw [hkey, List.length_replicate])
    · rw [hbad, UInt8.zero_and, if_pos (by decide)] at h
      cases h
    obtain hbad | ⟨check, -, rfl, hdecodeCheck⟩ := decodeHex_cases
      (show checkHex.length = 2 * (List.replicate checkLen (0 : UInt8)).length by
        rw [hcheck, List.length_replicate])
    · rw [hbad, UInt8.and_zero, if_pos (by decide)] at h
      cases h
    rw [hdecode, hdecodeCheck] at h
    dsimp only at h
    rw [if_neg (by decide)] at h
    split at h
    · cases h
    · rename_i hvalue
      rw [Except.ok.injEq, Prod.mk.injEq] at h
      obtain ⟨rfl, rfl⟩ := h
      rw [List.length_replicate] at hbytes
      exact ⟨rfl, hbytes, rfl, congrArg encodeHex (not_not.mp hvalue).symm⟩
  · rintro ⟨rfl, hlen, rfl, rfl⟩
    rw [decodeFields, decodeHex_encodeHex _ _ (by rw [List.length_replicate, hlen]),
      decodeHex_encodeHex _ _ (by rw [List.length_replicate, length_checkValue])]
    dsimp only
    rw [if_neg (by decide), if_neg (not_not_intro rfl)]

/-- A line decodes if it is the line of a key, and to that key. -/
theorem decodeLine_eq_ok_iff {text key : List UInt8} {kind : KeyKind} :
    decodeLine p text = .ok (kind, key)
      ↔ key.length = kind.keyLen ∧ text = keyLine p kind key := by
  constructor
  · intro h
    cases hfind : allKinds.find? (isLineOf text) with
    | none =>
      rw [decodeLine_of_find_none p hfind] at h
      cases h
    | some found =>
      obtain ⟨rest, rfl⟩ := find_isLineOf_iff.mp hfind
      rw [decodeLine_lineStart] at h
      split at h
      · cases h
      · rename_i hsep
        obtain ⟨keyHex, checkHex, hkeyLen, hcheckLen, rfl⟩ := exists_separator_iff.mp hsep
        rw [List.take_left' hkeyLen, ← hkeyLen, List.drop_length_add_append, List.drop_succ_cons,
          List.drop_zero] at h
        obtain ⟨rfl, hlen, rfl, rfl⟩ := (decodeFields_eq_ok_iff p hkeyLen hcheckLen).mp h
        refine ⟨hlen, ?_⟩
        simp only [keyLine, List.append_assoc, List.singleton_append]
  · rintro ⟨hlen, rfl⟩
    have hkeyLen : (encodeHex key).length = 2 * kind.keyLen := by rw [length_encodeHex, hlen]
    have hcheckLen : (encodeHex (checkValue p kind key)).length = 2 * checkLen := by
      rw [length_encodeHex, length_checkValue]
    have hsep : ¬((encodeHex key ++ 0x3a :: encodeHex (checkValue p kind key)).length
          ≠ 2 * kind.keyLen + 1 + 2 * checkLen
        ∨ (encodeHex key ++ 0x3a :: encodeHex (checkValue p kind key))[2 * kind.keyLen]?
          ≠ some 0x3a) :=
      exists_separator_iff.mpr ⟨encodeHex key, encodeHex (checkValue p kind key), hkeyLen, hcheckLen,
        rfl⟩
    rw [keyLine, List.append_assoc, List.append_assoc, List.singleton_append, decodeLine_lineStart,
      if_neg hsep, List.take_left' hkeyLen, ← hkeyLen, List.drop_length_add_append,
      List.drop_succ_cons, List.drop_zero]
    exact (decodeFields_eq_ok_iff p hkeyLen hcheckLen).mpr ⟨rfl, hlen, rfl, rfl⟩

/-! ## The codec -/

theorem getLast?_keyLine (kind : KeyKind) (key : List UInt8) :
    ∃ n, n < 16 ∧ (keyLine p kind key).getLast? = some (hexDigit n) := by
  have hne : checkValue p kind key ≠ [] := by
    rw [← List.length_pos_iff, length_checkValue]
    decide
  refine ⟨(checkValue p kind key).getLast hne &&& 0x0f, (halves_lt _).2, ?_⟩
  rw [keyLine]
  conv_lhs => rw [← List.dropLast_append_getLast hne, encodeHex_append, ← List.append_assoc,
    encodeHex_cons, List.getLast?_append_of_ne_nil _ (List.cons_ne_nil _ _)]
  rfl

/-- All three spellings of the line of a key decode to it. -/
theorem decode_keyLine {kind : KeyKind} {key : List UInt8} (h : key.length = kind.keyLen) :
    decode p (keyLine p kind key) = .ok (kind, key)
      ∧ decode p (keyLine p kind key ++ [0x0a]) = .ok (kind, key)
      ∧ decode p (keyLine p kind key ++ [0x0d, 0x0a]) = .ok (kind, key) := by
  have hdigit : ∀ n : UInt8, n < 16 → hexDigit n ≠ 0x0d ∧ hexDigit n ≠ 0x0a :=
    forall_byte (by decide +kernel)
  obtain ⟨n, hn, hlast⟩ := getLast?_keyLine p kind key
  obtain ⟨hnone, hlf, hcrlf⟩ := stripNewline_append
    (show (keyLine p kind key).getLast? ≠ some 0x0d by
      rw [hlast, ne_eq, Option.some.injEq]
      exact (hdigit n hn).1)
    (by rw [hlast, ne_eq, Option.some.injEq]; exact (hdigit n hn).2)
  have hdecode := (decodeLine_eq_ok_iff p).mpr ⟨h, rfl⟩
  rw [decode, decode, decode, hnone, hlf, hcrlf]
  exact ⟨hdecode, hdecode, hdecode⟩

/-- Only those decode to it. -/
theorem eq_keyLine_of_decode {text key : List UInt8} {kind : KeyKind}
    (h : decode p text = .ok (kind, key)) :
    key.length = kind.keyLen ∧ (text = keyLine p kind key ∨ text = keyLine p kind key ++ [0x0a]
      ∨ text = keyLine p kind key ++ [0x0d, 0x0a]) := by
  obtain ⟨hlen, hline⟩ := (decodeLine_eq_ok_iff p).mp h
  have hcases := stripNewline_cases text
  rw [hline] at hcases
  exact ⟨hlen, hcases⟩

/-- The kind that `decode` found, also where the rest of the line is damaged. -/
def foundKind : Except DecodeError (KeyKind × List UInt8) → Option KeyKind
  | .ok (kind, _) => some kind
  | .error (.malformed kind) => some kind
  | .error (.checkMismatch kind) => some kind
  | .error .notTyped => none

theorem foundKind_decodeFields (kind : KeyKind) (keyHex checkHex : List UInt8) :
    foundKind (decodeFields p kind keyHex checkHex) = some kind := by
  rw [decodeFields]
  dsimp only
  split
  · rfl
  · split <;> rfl

theorem lineStart_of_foundKind {text : List UInt8} {kind : KeyKind}
    (h : foundKind (decode p text) = some kind) : lineStart kind <+: text := by
  have hprefix : stripNewline text <+: text := by
    obtain htext | htext | htext := stripNewline_cases text
    · rw [← htext]
    · exact ⟨_, htext.symm⟩
    · exact ⟨_, htext.symm⟩
  refine List.IsPrefix.trans ?_ hprefix
  rw [decode] at h
  cases hfind : allKinds.find? (isLineOf (stripNewline text)) with
  | none =>
    rw [decodeLine_of_find_none p hfind] at h
    cases h
  | some found =>
    have hstart := find_isLineOf_iff.mp hfind
    obtain ⟨rest, hrest⟩ := hstart
    rw [← hrest, decodeLine_lineStart] at h
    have hfound : found = kind := by
      split at h
      · exact Option.some.inj h
      · exact Option.some.inj ((foundKind_decodeFields p found _ _).symm.trans h)
    rw [← hfound]
    exact ⟨rest, hrest⟩

/-- What `decode` does not take for some other file, the sniffer knows by its first bytes. -/
theorem sniffKind_of_foundKind {text : List UInt8} {kind : KeyKind}
    (h : foundKind (decode p text) = some kind) : sniffKind (text.take sniffLen) = some kind := by
  rw [sniffKind_take]
  exact sniffKind_of_prefix (lineStart_of_foundKind p h)

theorem length_le_of_decode {text key : List UInt8} {kind : KeyKind}
    (h : decode p text = .ok (kind, key)) : text.length ≤ maxKeyFileBytes := by
  obtain ⟨hlen, htext⟩ := eq_keyLine_of_decode p h
  have hkey : kind.keyLen ≤ 66 := by cases kind <;> decide
  have hline : (keyLine p kind key).length < 25 + 1 + 2 * 66 + 1 + 2 * checkLen := by
    have hprefix := length_prefixText kind
    simp only [keyLine, List.length_append, length_lineStart, length_encodeHex, length_checkValue,
      List.length_singleton, hlen]
    omega
  have hbound : text.length ≤ (keyLine p kind key).length + 2 := by
    obtain rfl | rfl | rfl := htext <;> simp
  simp only [checkLen, maxKeyFileBytes] at hline ⊢
  omega

end Line

/-- A kind that `readKey` names is the kind `refuseKeyFile` names. -/
theorem refuseKeyFile_of_readKey (p : Profile) {cwd : Loc} {fault : Option Errno} {disk : Disk}
    {path : PathName} {command : String} {expected : List KeyKind} {data : List UInt8}
    (hfile : disk.lstat cwd path = some (.file data)) {kind : KeyKind}
    (h : (∃ key, readKey p cwd fault disk path command expected = .ok (kind, key))
      ∨ readKey p cwd fault disk path command expected = .error (.keyFileMalformed path kind)
      ∨ readKey p cwd fault disk path command expected = .error (.keyCheckMismatch path kind)
      ∨ readKey p cwd fault disk path command expected
        = .error (.keyKindMismatch path command kind expected)) :
    refuseKeyFile cwd none disk path = .error (.outputIsKeyFile path kind) := by
  cases htext : readKeyText cwd fault disk path with
  | error e => simp [readKey, htext] at h
  | ok text =>
    have hfound : foundKind (decode p text) = some kind := by
      simp only [readKey, htext] at h
      cases hdecode : decode p text with
      | error e =>
        rw [hdecode] at h
        cases e <;> simp_all [foundKind]
      | ok found =>
        rw [hdecode] at h
        dsimp only at h
        split at h
        · obtain ⟨key, hkey⟩ : ∃ key, found = (kind, key) := by simpa using h
          rw [hkey]
          rfl
        · obtain rfl : found.1 = kind := by simpa using h
          rfl
    have hsniff := sniffKind_of_foundKind p hfound
    cases fault with
    | some e => cases htext
    | none =>
      rw [readKeyText] at htext
      rw [refuseKeyFile, hfile]
      dsimp only at htext ⊢
      rw [readHead]
      split at htext
      · cases htext
      · rename_i l hl
        split at htext
        · rename_i read hread
          rw [Except.ok.injEq] at htext
          rw [← htext, List.take_take, Nat.min_eq_left (by decide)] at hsniff
          simp only [hl, hread, hsniff]
        · cases htext

/-- The codec as a whole: every key of its kind's length comes back from all three spellings of
its line, nothing else decodes, what `decode` or `readKey` gives a kind the sniffer and
`refuseKeyFile` give the same, and a longer file than `readKey` reads does not decode. -/
theorem keyfile_codec (p : Profile) :
    (∀ kind key, key.length = kind.keyLen → ∃ text, encode p kind key = text ++ [0x0a]
      ∧ decode p (encode p kind key) = .ok (kind, key) ∧ decode p text = .ok (kind, key)
      ∧ decode p (text ++ [0x0d, 0x0a]) = .ok (kind, key))
    ∧ (∀ t kind key, decode p t = .ok (kind, key) → key.length = kind.keyLen
      ∧ ∃ text, encode p kind key = text ++ [0x0a]
        ∧ (t = encode p kind key ∨ t = text ∨ t = text ++ [0x0d, 0x0a]))
    ∧ (∀ t, decode p t ≠ .error .notTyped →
      ∃ kind, foundKind (decode p t) = some kind ∧ sniffKind (t.take sniffLen) = some kind)
    ∧ (∀ cwd fault disk path command expected data kind, disk.lstat cwd path = some (.file data) →
      ((∃ key, readKey p cwd fault disk path command expected = .ok (kind, key))
        ∨ readKey p cwd fault disk path command expected = .error (.keyFileMalformed path kind)
        ∨ readKey p cwd fault disk path command expected = .error (.keyCheckMismatch path kind)
        ∨ readKey p cwd fault disk path command expected
          = .error (.keyKindMismatch path command kind expected)) →
      refuseKeyFile cwd none disk path = .error (.outputIsKeyFile path kind))
    ∧ ∀ file : List UInt8, maxKeyFileBytes + 1 < file.length →
      ∀ found, decode p (file.take (maxKeyFileBytes + 1)) ≠ .ok found := by
  refine ⟨?_, ?_, ?_, ?_, ?_⟩
  · intro kind key hlen
    obtain ⟨hnone, hlf, hcrlf⟩ := decode_keyLine p hlen
    exact ⟨keyLine p kind key, encode_eq p kind key, hlf, hnone, hcrlf⟩
  · intro t kind key h
    obtain ⟨hlen, hnone | hlf | hcrlf⟩ := eq_keyLine_of_decode p h
    · exact ⟨hlen, _, encode_eq p kind key, .inr (.inl hnone)⟩
    · exact ⟨hlen, _, encode_eq p kind key, .inl hlf⟩
    · exact ⟨hlen, _, encode_eq p kind key, .inr (.inr hcrlf)⟩
  · intro t h
    have hfound : ∃ kind, foundKind (decode p t) = some kind := by
      match hdecode : decode p t with
      | .ok (kind, _) => exact ⟨kind, rfl⟩
      | .error (.malformed kind) => exact ⟨kind, rfl⟩
      | .error (.checkMismatch kind) => exact ⟨kind, rfl⟩
      | .error .notTyped => exact absurd hdecode h
    obtain ⟨kind, hkind⟩ := hfound
    exact ⟨kind, hkind, sniffKind_of_foundKind p hkind⟩
  · intro cwd fault disk path command expected data kind hfile h
    exact refuseKeyFile_of_readKey p hfile h
  · rintro file hlong ⟨kind, key⟩ h
    have hle := length_le_of_decode p h
    rw [List.length_take, Nat.min_eq_left (Nat.le_of_lt hlong)] at hle
    exact Nat.not_succ_le_self _ hle

end KeyCodec

end UaCrypt.Cli
