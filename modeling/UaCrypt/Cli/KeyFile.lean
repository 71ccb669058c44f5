import Mathlib

/-!
# Typed key files (`keyfile.rs`)

A key file is one line that starts with `<prefix>:`, the prefix naming what the key is
for. `sniffKind` tells such a file by its first `sniffLen` bytes.

- `sniffKind_take`: nothing after them changes the answer.
-/

namespace UaCrypt.Cli

/-- What a key file holds. -/
inductive KeyKind where
  | symmetric
  | sign163Secret
  | sign163Public
  | sign257Secret
  | sign257Public
  | box256Secret
  | box256Public
  | box384Secret
  | box384Public
  | box512Secret
  | box512Public
  deriving DecidableEq, Repr

/-- `ALL_KINDS`. -/
def allKinds : List KeyKind :=
  [.symmetric, .sign163Secret, .sign163Public, .sign257Secret, .sign257Public, .box256Secret,
    .box256Public, .box384Secret, .box384Public, .box512Secret, .box512Public]

/-- `str::as_bytes` of an ASCII text. -/
def asciiBytes (s : String) : List UInt8 := s.toList.map fun c => UInt8.ofNat c.toNat

/-- The first field of the key line. -/
def KeyKind.prefixText : KeyKind → String
  | .symmetric => "UACRYPT-SECRET-SYMMETRIC"
  | .sign163Secret => "UACRYPT-SECRET-SIGN163"
  | .sign163Public => "uacrypt-sign163-public"
  | .sign257Secret => "UACRYPT-SECRET-SIGN257"
  | .sign257Public => "uacrypt-sign257-public"
  | .box256Secret => "UACRYPT-SECRET-BOX256"
  | .box256Public => "uacrypt-box256-public"
  | .box384Secret => "UACRYPT-SECRET-BOX384"
  | .box384Public => "uacrypt-box384-public"
  | .box512Secret => "UACRYPT-SECRET-BOX512"
  | .box512Public => "uacrypt-box512-public"

/-- `slice::strip_prefix`. -/
def stripFront (front : List UInt8) (head : List UInt8) : Option (List UInt8) :=
  if front = head.take front.length then some (head.drop front.length) else none

/-- `SNIFF_LEN`: a UTF-8 BOM, the longest prefix and its `:`. -/
def sniffLen : Nat := 28

/-- A UTF-8 byte order mark. -/
def bom : List UInt8 := [0xef, 0xbb, 0xbf]

/-- The test `sniff_kind` makes for one kind. -/
def startsKeyLine (head : List UInt8) (kind : KeyKind) : Bool :=
  match stripFront (asciiBytes kind.prefixText) head with
  | none => false
  | some rest => rest.head? = some 0x3a

/-- The kind of a file starting with `<prefix>:`, also behind a BOM. -/
def sniffKind (head : List UInt8) : Option KeyKind :=
  allKinds.find? (startsKeyLine ((stripFront bom head).getD head))

theorem stripFront_take {front head : List UInt8} {n : Nat} (h : front.length ≤ n) :
    stripFront front (head.take n) = (stripFront front head).map (List.take (n - front.length)) := by
  rw [stripFront, stripFront, List.take_take, Nat.min_eq_left h, List.drop_take]
  split
  · rfl
  · rfl

theorem startsKeyLine_take {head : List UInt8} {kind : KeyKind} {n : Nat}
    (h : (asciiBytes kind.prefixText).length < n) :
    startsKeyLine (head.take n) kind = startsKeyLine head kind := by
  rw [startsKeyLine, startsKeyLine, stripFront_take (Nat.le_of_lt h)]
  cases stripFront (asciiBytes kind.prefixText) head with
  | none => rfl
  | some rest =>
    have hpos : n - (asciiBytes kind.prefixText).length ≠ 0 := by omega
    simp only [Option.map_some, List.head?_take, if_neg hpos]

theorem length_prefixText (kind : KeyKind) : (asciiBytes kind.prefixText).length < 25 := by
  cases kind <;> decide

/-- **`sniffLen` bytes are enough**: what follows them changes nothing. -/
theorem sniffKind_take (head : List UInt8) : sniffKind (head.take sniffLen) = sniffKind head := by
  have hlong : ∀ (file : List UInt8) {n : Nat}, 25 ≤ n →
      startsKeyLine (file.take n) = startsKeyLine file := by
    intro file n hn
    ext1 kind
    exact startsKeyLine_take (Nat.lt_of_lt_of_le (length_prefixText kind) hn)
  rw [sniffKind, sniffKind, stripFront_take (by decide)]
  cases stripFront bom head with
  | none => rw [Option.map_none, Option.getD_none, Option.getD_none, hlong head (by decide)]
  | some rest => rw [Option.map_some, Option.getD_some, Option.getD_some, hlong rest (by decide)]

end UaCrypt.Cli
