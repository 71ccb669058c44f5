import UaCrypt.Cli.KeyCodec
import UaCrypt.Lib.TextLines

/-!
# Checksum lists (`hash --check` in `lib.rs`)

`hash --in` prints `<hex>  <path>`, the path only where it is one line of text. `hash --check`
reads a file of such lines, which is untrusted, and hashes nothing unless every line is one.

- `parseCheckLine_eq_some_iff`, `parseCheckList_eq`: one line, and the list as its lines.
- `check_list_codec`: what is printed is read back, whatever the line ends; what is read is
  such a list, line by line, and a refusal names the first line that is none.
-/

namespace UaCrypt.Cli

open TextLines

namespace CheckList

/-- An entry of the list, with its `[u8; 32]`. -/
structure CheckEntry where
  digest : List UInt8
  path : String
  length_digest : digest.length = 32
  deriving DecidableEq, Repr

inductive CheckListError where
  | empty
  /-- Starts with a UTF-16 byte-order mark. -/
  | utf16
  /-- The number of a line, the first being 1. -/
  | malformed (line : Nat)
  deriving DecidableEq, Repr

/-- `char::is_control`, the characters of category Cc. -/
def isControl (c : Char) : Bool :=
  decide (c.toNat < 0x20) || decide (0x7f ≤ c.toNat ∧ c.toNat ≤ 0x9f)

/-- The path goes through one line and cannot move the terminal. -/
def isPrintablePath (path : String) : Bool := !path.isEmpty && !path.toList.any isControl

/-- `u8::to_ascii_lowercase`. -/
def toAsciiLowercase (c : UInt8) : UInt8 := if 0x41 ≤ c ∧ c ≤ 0x5a then c + 0x20 else c

/-- `slice::split_at_checked`. -/
def splitAtChecked (mid : Nat) (line : List UInt8) : Option (List UInt8 × List UInt8) :=
  if mid ≤ line.length then some (line.take mid, line.drop mid) else none

def parseCheckLine (line : List UInt8) : Option CheckEntry := do
  let (hex, rest) ← splitAtChecked 64 line
  let path ← fromUtf8 (← stripFront [0x20, 0x20] rest)
  if isPrintablePath path then
    let lower := hex.map toAsciiLowercase
    if (KeyCodec.decodeHex lower (List.replicate 32 0)).2 = 1 then
      some
        { digest := (KeyCodec.decodeHex lower (List.replicate 32 0)).1
          path := path
          length_digest := by
            rw [KeyCodec.decodeHex, KeyCodec.length_decodeHexLoop, List.length_replicate] }
    else none
  else none

/-- What the closure of `parse_check_list` makes of a line and its place. -/
def parseIndexed (line : List UInt8 × Nat) : Except CheckListError CheckEntry :=
  match parseCheckLine ((KeyCodec.stripBack [0x0d] line.1).getD line.1) with
  | some entry => .ok entry
  | none => .error (.malformed (line.2 + 1))

/-- Parses a whole check file. -/
def parseCheckList (text : List UInt8) : Except CheckListError (List CheckEntry) :=
  if [0xff, 0xfe] <+: text ∨ [0xfe, 0xff] <+: text then .error .utf16
  else
    let text := (stripFront bom text).getD text
    let text := (KeyCodec.stripBack [0x0a] text).getD text
    if text = [] then .error .empty
    else (text.splitOn 0x0a).zipIdx.mapM parseIndexed

/-- `{b:02x}`. -/
def formatHex (b : UInt8) : String :=
  let digits := Nat.toDigits 16 b.toNat
  String.ofList (List.replicate (2 - digits.length) '0' ++ digits)

def hexLower (bytes : List UInt8) : String := bytes.foldl (fun out b => out ++ formatHex b) ""

/-- The line of the digest of `shown`, without its end. -/
def hashLine (digest : List UInt8) (shown : String) : String := hexLower digest ++ "  " ++ shown

theorem utf8_formatHex (b : UInt8) :
    utf8 (formatHex b) = [KeyCodec.hexDigit (b >>> 4), KeyCodec.hexDigit (b &&& 0x0f)] := by
  rw [formatHex, utf8_ofList]
  exact KeyCodec.forall_byte (P := fun b =>
    (List.replicate (2 - (Nat.toDigits 16 b.toNat).length) '0' ++ Nat.toDigits 16 b.toNat).flatMap
      String.utf8EncodeChar = [KeyCodec.hexDigit (b >>> 4), KeyCodec.hexDigit (b &&& 0x0f)])
    (by decide +kernel) b

theorem utf8_hexLower (bytes : List UInt8) : utf8 (hexLower bytes) = KeyCodec.encodeHex bytes := by
  have hfold (out : String) : utf8 (bytes.foldl (fun out b => out ++ formatHex b) out)
      = utf8 out ++ KeyCodec.encodeHex bytes := by
    induction bytes generalizing out with
    | nil => exact (List.append_nil _).symm
    | cons b bytes ih =>
      rw [List.foldl_cons, ih, utf8_append, utf8_formatHex, List.append_assoc,
        KeyCodec.encodeHex_cons]
      rfl
  exact hfold ""

theorem stripFront_eq_some_iff {front text rest : List UInt8} :
    stripFront front text = some rest ↔ text = front ++ rest := by
  rw [stripFront]
  constructor
  · intro h
    split at h
    · rename_i hfront
      rw [Option.some.injEq] at h
      calc text = text.take front.length ++ text.drop front.length :=
            (List.take_append_drop _ _).symm
        _ = front ++ rest := by rw [← hfront, h]
    · cases h
  · rintro rfl
    rw [List.take_left, if_pos rfl, List.drop_left]

theorem splitAtChecked_eq_some_iff {mid : Nat} {line hex rest : List UInt8} :
    splitAtChecked mid line = some (hex, rest) ↔ hex.length = mid ∧ line = hex ++ rest := by
  rw [splitAtChecked]
  constructor
  · intro h
    split at h
    · rename_i hlen
      obtain ⟨rfl, rfl⟩ := Prod.mk.inj (Option.some.inj h)
      exact ⟨List.length_take_of_le hlen, (List.take_append_drop mid line).symm⟩
    · cases h
  · rintro ⟨rfl, rfl⟩
    rw [if_pos (by rw [List.length_append]; exact Nat.le_add_right _ _), List.take_left,
      List.drop_left]

/-- The line names the entry, in digits of either case. -/
def IsEntryLine (line : List UInt8) (entry : CheckEntry) : Prop :=
  isPrintablePath entry.path = true ∧ ∃ hex,
    hex.map toAsciiLowercase = utf8 (hexLower entry.digest)
      ∧ line = hex ++ [0x20, 0x20] ++ utf8 entry.path

/-- As `IsEntryLine`, also with a `\r` behind. -/
def IsListLine (line : List UInt8) (entry : CheckEntry) : Prop :=
  IsEntryLine line entry ∨ ∃ body, line = body ++ [0x0d] ∧ IsEntryLine body entry

theorem CheckEntry.ext {a b : CheckEntry} (hdigest : a.digest = b.digest) (hpath : a.path = b.path) :
    a = b := by
  cases a
  cases b
  cases hdigest
  cases hpath
  rfl

theorem parseCheckLine_eq_some_iff {line : List UInt8} {entry : CheckEntry} :
    parseCheckLine line = some entry ↔ IsEntryLine line entry := by
  constructor
  · intro h
    rw [parseCheckLine, Option.bind_eq_bind, Option.bind_eq_some_iff] at h
    obtain ⟨⟨hex, rest⟩, hsplit, h⟩ := h
    obtain ⟨hhex, rfl⟩ := splitAtChecked_eq_some_iff.mp hsplit
    dsimp only at h
    rw [Option.bind_eq_bind, Option.bind_eq_some_iff] at h
    obtain ⟨text, htext, h⟩ := h
    rw [Option.bind_eq_bind, Option.bind_eq_some_iff] at h
    obtain ⟨path, hpath, h⟩ := h
    obtain rfl := stripFront_eq_some_iff.mp htext
    obtain rfl := fromUtf8_eq_some_iff.mp hpath
    split at h
    · rename_i hprintable
      split at h
      · rename_i hok
        obtain rfl := Option.some.inj h
        refine ⟨hprintable, hex, ?_, (List.append_assoc _ _ _).symm⟩
        obtain hbad | ⟨bytes, -, hlower, hbytes⟩ :=
          KeyCodec.decodeHex_cases
            (show (hex.map toAsciiLowercase).length = 2 * (List.replicate 32 (0 : UInt8)).length by
              rw [List.length_map, hhex, List.length_replicate])
        · rw [hbad] at hok
          exact absurd hok (by decide)
        · have hdigest : (KeyCodec.decodeHex (hex.map toAsciiLowercase) (List.replicate 32 0)).1
              = bytes := congrArg Prod.fst hbytes
          rw [utf8_hexLower]
          exact hlower.trans (congrArg KeyCodec.encodeHex hdigest.symm)
      · cases h
    · cases h
  · rintro ⟨hprintable, hex, hlower, rfl⟩
    rw [utf8_hexLower] at hlower
    have hhex : hex.length = 64 := by
      have hlen := congrArg List.length hlower
      rwa [List.length_map, KeyCodec.length_encodeHex, entry.length_digest] at hlen
    have hdecode := KeyCodec.decodeHex_encodeHex entry.digest (List.replicate 32 0)
      (by rw [List.length_replicate, entry.length_digest])
    rw [← hlower] at hdecode
    rw [parseCheckLine, List.append_assoc, splitAtChecked_eq_some_iff.mpr ⟨hhex, rfl⟩]
    simp only [Option.bind_eq_bind, Option.bind_some]
    rw [stripFront_eq_some_iff.mpr rfl, Option.bind_some, fromUtf8_eq_some_iff.mpr rfl,
      Option.bind_some, if_pos hprintable, if_pos (by rw [hdecode])]
    exact congrArg some (CheckEntry.ext (congrArg Prod.fst hdecode) rfl)

theorem hexValue_of_mem_encodeHex {c : UInt8} {bytes : List UInt8}
    (h : c ∈ KeyCodec.encodeHex bytes) : (KeyCodec.hexValue c).2 = 1 := by
  obtain ⟨byte, -, hc⟩ := List.mem_flatMap.mp h
  obtain ⟨hhi, hlo⟩ := KeyCodec.halves_lt byte
  simp only [List.mem_cons, List.not_mem_nil, or_false] at hc
  rcases hc with rfl | rfl
  · rw [KeyCodec.hexValue_hexDigit _ hhi]
  · rw [KeyCodec.hexValue_hexDigit _ hlo]

/-- The digits of either case are printable ASCII. -/
theorem hex_bounds {hex bytes : List UInt8} {b : UInt8}
    (h : hex.map toAsciiLowercase = KeyCodec.encodeHex bytes) (hb : b ∈ hex) :
    ¬b < 0x20 ∧ b < 0x80 := by
  have hall : ∀ c : UInt8, (KeyCodec.hexValue (toAsciiLowercase c)).2 = 1 →
      ¬c < 0x20 ∧ c < 0x80 := KeyCodec.forall_byte (by decide +kernel)
  have hmem : toAsciiLowercase b ∈ KeyCodec.encodeHex bytes := by
    rw [← h]
    exact List.mem_map_of_mem hb
  exact hall b (hexValue_of_mem_encodeHex hmem)

theorem exists_cons_of_entryLine {line : List UInt8} {entry : CheckEntry}
    (h : IsEntryLine line entry) : ∃ b rest, line = b :: rest ∧ b < 0x80 := by
  obtain ⟨-, hex, hlower, rfl⟩ := h
  rw [utf8_hexLower] at hlower
  cases hex with
  | nil =>
    have hlen := congrArg List.length hlower
    rw [KeyCodec.length_encodeHex, entry.length_digest] at hlen
    cases hlen
  | cons b hex => exact ⟨b, _, rfl, (hex_bounds hlower List.mem_cons_self).2⟩

/-- No line end, and no other control byte, stands in the line of an entry. -/
theorem not_control_of_mem {line : List UInt8} {entry : CheckEntry} (h : IsEntryLine line entry)
    {b : UInt8} (hb : b ∈ line) : ¬b < 0x20 := by
  intro hcontrol
  obtain ⟨hprintable, hex, hlower, rfl⟩ := h
  rcases List.mem_append.mp hb with hb | hb
  · rcases List.mem_append.mp hb with hb | hb
    · rw [utf8_hexLower] at hlower
      exact (hex_bounds hlower hb).1 hcontrol
    · simp only [List.mem_cons, List.not_mem_nil, or_false, or_self] at hb
      rw [hb] at hcontrol
      exact absurd hcontrol (by decide)
  · obtain ⟨c, hc, hval⟩ := mem_utf8 hb (UInt8.lt_trans hcontrol (by decide : (0x20 : UInt8) < 0x80))
    have hlt : c.toNat < 0x20 := by
      rw [hval]
      exact UInt8.lt_iff_toNat_lt.mp hcontrol
    rw [isPrintablePath, Bool.and_eq_true, Bool.not_eq_true', Bool.not_eq_true',
      List.any_eq_false] at hprintable
    exact hprintable.2 c hc (by rw [isControl, decide_eq_true hlt, Bool.true_or])

/-- The closure takes off one `\r` where there is one. -/
theorem parseIndexed_eq_ok_iff {line : List UInt8 × Nat} {entry : CheckEntry} :
    parseIndexed line = .ok entry ↔ IsListLine line.1 entry := by
  have hline : parseIndexed line = .ok entry
      ↔ parseCheckLine ((KeyCodec.stripBack [0x0d] line.1).getD line.1) = some entry := by
    rw [parseIndexed]
    cases parseCheckLine ((KeyCodec.stripBack [0x0d] line.1).getD line.1) <;> simp
  rw [hline, parseCheckLine_eq_some_iff, IsListLine]
  cases hcr : KeyCodec.stripBack [0x0d] line.1 with
  | none =>
    rw [Option.getD_none]
    refine ⟨.inl, ?_⟩
    rintro (h | ⟨body, hbody, -⟩)
    · exact h
    · rw [KeyCodec.stripBack_eq_some_iff.mpr hbody] at hcr
      cases hcr
  | some body =>
    have hbody := KeyCodec.stripBack_eq_some_iff.mp hcr
    rw [Option.getD_some]
    refine ⟨fun h => .inr ⟨body, hbody, h⟩, ?_⟩
    rintro (h | ⟨other, hother, h⟩)
    · rw [hbody] at h
      exact absurd (by decide : (0x0d : UInt8) < 0x20)
        (not_control_of_mem h (List.mem_append_right body (List.mem_singleton_self _)))
    · rw [hbody] at hother
      rwa [List.append_cancel_right hother]

theorem parseIndexed_eq_error_iff {line : List UInt8 × Nat} {e : CheckListError} :
    parseIndexed line = .error e
      ↔ (¬∃ entry, IsListLine line.1 entry) ∧ e = .malformed (line.2 + 1) := by
  simp only [← parseIndexed_eq_ok_iff]
  rw [parseIndexed]
  cases parseCheckLine ((KeyCodec.stripBack [0x0d] line.1).getD line.1) with
  | none => simp [eq_comm]
  | some entry => simp

/-! ## The list -/

/-- The lines of a list, behind one byte-order mark where there is one. -/
def IsListText (text : List UInt8) (lines : List (List UInt8)) : Prop :=
  ∃ front body, (front = bom ∨ front = [] ∧ ¬bom <+: text) ∧ text = front ++ body
    ∧ IsLines 0x0a body lines

/-- It starts as UTF-16 does. -/
def IsUtf16 (text : List UInt8) : Prop := [0xff, 0xfe] <+: text ∨ [0xfe, 0xff] <+: text

theorem isLines_iff {body : List UInt8} {lines : List (List UInt8)} : IsLines 0x0a body lines
    ↔ ((KeyCodec.stripBack [0x0a] body).getD body).splitOn 0x0a = lines := by
  cases hlf : KeyCodec.stripBack [0x0a] body with
  | none =>
    rw [Option.getD_none]
    refine isLines_of_not_suffix ?_
    rintro ⟨rest, hrest⟩
    rw [KeyCodec.stripBack_eq_some_iff.mpr hrest.symm] at hlf
    cases hlf
  | some rest =>
    rw [Option.getD_some, KeyCodec.stripBack_eq_some_iff.mp hlf]
    exact isLines_append_sep

theorem isListText_iff {text : List UInt8} {lines : List (List UInt8)} :
    IsListText text lines ↔ IsLines 0x0a ((stripFront bom text).getD text) lines := by
  cases hbom : stripFront bom text with
  | none =>
    have hnot : ¬bom <+: text := by
      rintro ⟨rest, hrest⟩
      rw [stripFront_eq_some_iff.mpr hrest.symm] at hbom
      cases hbom
    rw [Option.getD_none]
    constructor
    · rintro ⟨front, body, rfl | ⟨rfl, -⟩, rfl, hlines⟩
      · exact absurd (List.prefix_append _ _) hnot
      · exact hlines
    · exact fun h => ⟨[], text, .inr ⟨rfl, hnot⟩, rfl, h⟩
  | some rest =>
    have htext := stripFront_eq_some_iff.mp hbom
    rw [Option.getD_some]
    constructor
    · rintro ⟨front, body, rfl | ⟨rfl, hnot⟩, hbody, hlines⟩
      · rw [htext] at hbody
        rwa [List.append_cancel_left hbody]
      · exact absurd ⟨rest, htext.symm⟩ hnot
    · exact fun h => ⟨bom, rest, .inl rfl, htext, h⟩

/-- Every text has its lines in one way. -/
theorem existsUnique_lines (text : List UInt8) : ∃! lines, IsListText text lines := by
  simp only [isListText_iff, isLines_iff]
  exact ⟨_, rfl, fun _ h => h.symm⟩

theorem splitOn_eq_nil_iff {text : List UInt8} : text.splitOn 0x0a = [[]] ↔ text = [] := by
  rw [splitOn_eq_iff]
  constructor
  · rintro ⟨rfl, -⟩
    rfl
  · rintro rfl
    exact ⟨rfl, List.cons_ne_nil _ _, by simp⟩

/-- What the parser does with the lines of the text. -/
theorem parseCheckList_eq {text : List UInt8} {lines : List (List UInt8)}
    (hmark : ¬IsUtf16 text) (hlines : IsListText text lines) :
    parseCheckList text = if lines = [[]] then .error .empty
      else lines.zipIdx.mapM parseIndexed := by
  rw [isListText_iff, isLines_iff] at hlines
  rw [IsUtf16] at hmark
  rw [parseCheckList, if_neg hmark, ← hlines]
  dsimp only
  simp only [splitOn_eq_nil_iff]

theorem forall₂_zipIdx {lines : List (List UInt8)} {entries : List CheckEntry} :
    List.Forall₂ (fun line entry => parseIndexed line = .ok entry) lines.zipIdx entries
      ↔ List.Forall₂ IsListLine lines entries := by
  simp only [parseIndexed_eq_ok_iff]
  rw [← List.forall₂_map_left_iff (f := Prod.fst), List.zipIdx_map_fst]

theorem malformed_of_mapM {lines : List (List UInt8 × Nat)} {e : CheckListError}
    (h : lines.mapM parseIndexed = .error e) : ∃ i, e = .malformed i := by
  obtain ⟨before, bad, after, -, -, hbad⟩ := mapM_eq_error_iff.mp h
  exact ⟨_, (parseIndexed_eq_error_iff.mp hbad).2⟩

theorem parseCheckList_of_utf16 {text : List UInt8} (h : IsUtf16 text) :
    parseCheckList text = .error .utf16 := by
  rw [IsUtf16] at h
  rw [parseCheckList, if_pos h]

/-- A list whose first line is an entry's starts with a hex digit. -/
theorem exists_cons_of_entries {lines : List (List UInt8)} {entries : List CheckEntry}
    (hne : lines ≠ []) (h : List.Forall₂ IsListLine lines entries) (back : List UInt8) :
    ∃ b tail, [0x0a].intercalate lines ++ back = b :: tail ∧ b < 0x80 := by
  cases h with
  | nil => exact absurd rfl hne
  | @cons line entry lines entries hline hrest =>
    have hhead : ∃ b rest, line = b :: rest ∧ b < 0x80 := by
      obtain hline | ⟨other, rfl, hline⟩ := hline
      · exact exists_cons_of_entryLine hline
      · obtain ⟨b, rest, rfl, hb⟩ := exists_cons_of_entryLine hline
        exact ⟨b, _, rfl, hb⟩
    obtain ⟨b, rest, rfl, hb⟩ := hhead
    cases lines with
    | nil => exact ⟨b, rest ++ back, by rw [List.intercalate_singleton]; rfl, hb⟩
    | cons next lines => exact ⟨b, _, by rw [List.intercalate_cons_cons]; rfl, hb⟩

theorem not_utf16_of_entries {text : List UInt8} {lines : List (List UInt8)}
    {entries : List CheckEntry} (hlines : IsListText text lines)
    (h : List.Forall₂ IsListLine lines entries) : ¬IsUtf16 text ∧ lines ≠ [[]] := by
  obtain ⟨front, body, hfront, rfl, back, -, rfl, hne, -⟩ := hlines
  constructor
  · obtain ⟨b, tail, hbody, hb⟩ := exists_cons_of_entries hne h back
    rw [hbody]
    rcases hfront with rfl | ⟨rfl, -⟩
    · simp [IsUtf16, bom]
    · have hne : 0xff ≠ b ∧ 0xfe ≠ b := by
        constructor <;> rintro rfl <;> exact absurd hb (by decide)
      simp [IsUtf16, hne]
  · rintro rfl
    obtain ⟨b, tail, hbody, -⟩ := exists_cons_of_entries hne h []
    cases hbody

/-- A list is accepted with the entries of its lines, one each. -/
theorem parseCheckList_eq_ok_iff {text : List UInt8} {entries : List CheckEntry} :
    parseCheckList text = .ok entries
      ↔ ∃ lines, IsListText text lines ∧ List.Forall₂ IsListLine lines entries := by
  constructor
  · intro h
    obtain ⟨lines, hlines, -⟩ := existsUnique_lines text
    by_cases hmark : IsUtf16 text
    · rw [parseCheckList_of_utf16 hmark] at h
      cases h
    rw [parseCheckList_eq hmark hlines] at h
    split at h
    · cases h
    · exact ⟨lines, hlines, forall₂_zipIdx.mp (mapM_eq_ok_iff.mp h)⟩
  · rintro ⟨lines, hlines, hentries⟩
    obtain ⟨hmark, hne⟩ := not_utf16_of_entries hlines hentries
    rw [parseCheckList_eq hmark hlines, if_neg hne]
    exact mapM_eq_ok_iff.mpr (forall₂_zipIdx.mpr hentries)

/-- The line a refusal names is the first that is no entry's. -/
theorem parseCheckList_eq_malformed_iff {text : List UInt8} {i : Nat} :
    parseCheckList text = .error (.malformed i) ↔ ¬IsUtf16 text ∧ ∃ before bad after,
      IsListText text (before ++ bad :: after) ∧ before ++ bad :: after ≠ [[]]
        ∧ (∀ line ∈ before, ∃ entry, IsListLine line entry) ∧ (¬∃ entry, IsListLine bad entry)
        ∧ i = before.length + 1 := by
  constructor
  · intro h
    obtain ⟨lines, hlines, -⟩ := existsUnique_lines text
    by_cases hmark : IsUtf16 text
    · rw [parseCheckList_of_utf16 hmark] at h
      cases h
    refine ⟨hmark, ?_⟩
    rw [parseCheckList_eq hmark hlines] at h
    split at h
    · cases h
    rename_i hne
    obtain ⟨before, bad, after, hsplit, hbefore, hbad⟩ := mapM_eq_error_iff.mp h
    obtain ⟨first, rest, rfl, rfl, hrest⟩ := List.zipIdx_eq_append_iff.mp hsplit
    obtain ⟨line, tail, rfl, rfl, rfl⟩ := List.zipIdx_eq_cons_iff.mp hrest.symm
    rw [parseIndexed_eq_error_iff] at hbad
    refine ⟨first, line, tail, hlines, hne, ?_, hbad.1, ?_⟩
    · intro other hother
      obtain ⟨indexed, hindexed, rfl⟩ : ∃ indexed ∈ first.zipIdx, indexed.1 = other := by
        rwa [← List.mem_map, List.zipIdx_map_fst]
      obtain ⟨entry, hentry⟩ := hbefore indexed hindexed
      exact ⟨entry, parseIndexed_eq_ok_iff.mp hentry⟩
    · have hi := hbad.2
      rw [CheckListError.malformed.injEq] at hi
      rw [hi, Nat.zero_add]
  · rintro ⟨hmark, before, bad, after, hlines, hne, hbefore, hbad, rfl⟩
    rw [parseCheckList_eq hmark hlines, if_neg hne, mapM_eq_error_iff]
    refine ⟨before.zipIdx, (bad, before.length), after.zipIdx (before.length + 1), ?_, ?_, ?_⟩
    · rw [List.zipIdx_append, List.zipIdx_cons, Nat.zero_add]
    · rintro ⟨line, k⟩ hline
      obtain ⟨entry, hentry⟩ := hbefore line (List.fst_mem_of_mem_zipIdx hline)
      exact ⟨entry, parseIndexed_eq_ok_iff.mpr hentry⟩
    · exact parseIndexed_eq_error_iff.mpr ⟨hbad, rfl⟩

/-! ## The codec -/

/-- A text of the list: its line ends, whether the last one stands, and the byte-order mark are
free. -/
def listText (mark : Bool) (lineEnd : List UInt8) (lastEnd : Bool) (entries : List CheckEntry) :
    List UInt8 :=
  (if mark then bom else [])
    ++ (lineEnd.intercalate (entries.map fun entry => utf8 (hashLine entry.digest entry.path))
      ++ (if lastEnd then lineEnd else []))

theorem isEntryLine_hashLine {entry : CheckEntry} (h : isPrintablePath entry.path = true) :
    IsEntryLine (utf8 (hashLine entry.digest entry.path)) entry := by
  have hlower : ∀ n : UInt8, n < 16 → toAsciiLowercase (KeyCodec.hexDigit n) = KeyCodec.hexDigit n :=
    KeyCodec.forall_byte (by decide +kernel)
  refine ⟨h, utf8 (hexLower entry.digest), ?_, ?_⟩
  · rw [utf8_hexLower]
    refine (List.map_congr_left fun c hc => ?_).trans (List.map_id _)
    obtain ⟨byte, -, hc⟩ := List.mem_flatMap.mp hc
    obtain ⟨hhi, hlo⟩ := KeyCodec.halves_lt byte
    simp only [List.mem_cons, List.not_mem_nil, or_false] at hc
    rcases hc with rfl | rfl
    · exact hlower _ hhi
    · exact hlower _ hlo
  · rw [hashLine, utf8_append, utf8_append]
    rfl

theorem forall₂_endLines {front : List UInt8} (hfront : front = [] ∨ front = [0x0d])
    (lastEnd : Bool) {entries : List CheckEntry}
    (h : ∀ entry ∈ entries, isPrintablePath entry.path = true) :
    List.Forall₂ IsListLine (endLines front lastEnd
      (entries.map fun entry => utf8 (hashLine entry.digest entry.path))) entries := by
  have hbare {entry : CheckEntry} (hentry : isPrintablePath entry.path = true) :
      IsListLine (utf8 (hashLine entry.digest entry.path)) entry :=
    .inl (isEntryLine_hashLine hentry)
  have hended {entry : CheckEntry} (hentry : isPrintablePath entry.path = true) :
      IsListLine (utf8 (hashLine entry.digest entry.path) ++ front) entry := by
    rcases hfront with rfl | rfl
    · rw [List.append_nil]
      exact hbare hentry
    · exact .inr ⟨_, rfl, isEntryLine_hashLine hentry⟩
  induction entries with
  | nil => exact .nil
  | cons entry entries ih =>
    obtain ⟨hentry, hrest⟩ := List.forall_mem_cons.mp h
    cases entries with
    | nil =>
      refine .cons ?_ .nil
      cases lastEnd
      · exact hbare hentry
      · exact hended hentry
    | cons next entries => exact .cons (hended hentry) (ih hrest)

theorem exists_entry_of_mem {lines : List (List UInt8)} {entries : List CheckEntry}
    (h : List.Forall₂ IsListLine lines entries) {line : List UInt8} (hline : line ∈ lines) :
    ∃ entry, IsListLine line entry := by
  induction h with
  | nil => cases hline
  | cons hfirst _ ih =>
    rcases List.mem_cons.mp hline with rfl | hline
    · exact ⟨_, hfirst⟩
    · exact ih hline

theorem not_lineEnd_of_mem {lines : List (List UInt8)} {entries : List CheckEntry}
    (h : List.Forall₂ IsListLine lines entries) {line : List UInt8} (hline : line ∈ lines) :
    line ≠ [] ∧ 0x0a ∉ line := by
  have hbare {line : List UInt8} {entry : CheckEntry} (hentry : IsEntryLine line entry) :
      line ≠ [] ∧ 0x0a ∉ line := by
    obtain ⟨b, rest, hcons, -⟩ := exists_cons_of_entryLine hentry
    refine ⟨by rw [hcons]; exact List.cons_ne_nil b rest, fun hmem => ?_⟩
    exact not_control_of_mem hentry hmem (by decide)
  obtain ⟨entry, hentry | ⟨body, rfl, hentry⟩⟩ := exists_entry_of_mem h hline
  · exact hbare hentry
  · obtain ⟨-, hbody⟩ := hbare hentry
    refine ⟨by simp, ?_⟩
    rw [List.mem_append, not_or]
    exact ⟨hbody, by decide⟩

/-- The text has the lines that are expected of it. -/
theorem isListText_listText {front : List UInt8} (hfront : front = [] ∨ front = [0x0d])
    (mark lastEnd : Bool) {entries : List CheckEntry} (hne : entries ≠ [])
    (h : ∀ entry ∈ entries, isPrintablePath entry.path = true) :
    IsListText (listText mark (front ++ [0x0a]) lastEnd entries) (endLines front lastEnd
      (entries.map fun entry => utf8 (hashLine entry.digest entry.path))) := by
  have hentries : (entries.map fun entry => utf8 (hashLine entry.digest entry.path)) ≠ [] := by
    simpa using hne
  have hbody := @intercalate_endLines _ (0x0a : UInt8) front lastEnd _ hentries
  have hlines := forall₂_endLines hfront lastEnd h
  have hnil : endLines front lastEnd
      (entries.map fun entry => utf8 (hashLine entry.digest entry.path)) ≠ [] := by
    rintro hnil
    rw [hnil, List.forall₂_nil_left_iff] at hlines
    exact hne hlines
  rw [listText, hbody]
  refine ⟨_, _, ?_, rfl, if lastEnd then [0x0a] else [], ?_, rfl, hnil, ?_⟩
  · cases mark with
    | true => exact .inl rfl
    | false =>
      obtain ⟨b, tail, hcons, hb⟩ := exists_cons_of_entries hnil hlines
        (if lastEnd then [0x0a] else [])
      refine .inr ⟨rfl, ?_⟩
      rw [hcons]
      rintro ⟨rest, hrest⟩
      obtain ⟨rfl, -⟩ := List.cons.inj hrest
      exact absurd hb (by decide)
  · cases lastEnd with
    | true => exact .inl rfl
    | false =>
      refine .inr ⟨rfl, ?_⟩
      rw [if_neg Bool.false_ne_true, List.append_nil]
      exact (not_suffix_intercalate hnil fun line hline => not_lineEnd_of_mem hlines hline).2
  · exact fun line hline => (not_lineEnd_of_mem hlines hline).2

/-- What is printed of entries is read back as these entries. -/
theorem parseCheckList_listText {lineEnd : List UInt8}
    (hend : lineEnd = [0x0a] ∨ lineEnd = [0x0d, 0x0a]) (mark lastEnd : Bool)
    {entries : List CheckEntry} (hne : entries ≠ [])
    (h : ∀ entry ∈ entries, isPrintablePath entry.path = true) :
    parseCheckList (listText mark lineEnd lastEnd entries) = .ok entries := by
  obtain ⟨front, hfront, rfl⟩ :
      ∃ front : List UInt8, (front = [] ∨ front = [0x0d]) ∧ lineEnd = front ++ [0x0a] := by
    rcases hend with rfl | rfl
    · exact ⟨[], .inl rfl, rfl⟩
    · exact ⟨[0x0d], .inr rfl, rfl⟩
  exact parseCheckList_eq_ok_iff.mpr ⟨_, isListText_listText hfront mark lastEnd hne h,
    forall₂_endLines hfront lastEnd h⟩

/-- The codec as a whole: a list of entries is read back from every spelling of its text; a text
that is accepted consists of the lines of the entries, up to the case of the digits and a `\r`
behind a line; a refused one is UTF-16, has no line, or has the line named as its first that is
no entry's. -/
theorem check_list_codec :
    (∀ (mark lastEnd : Bool) (lineEnd : List UInt8) (entries : List CheckEntry),
      (lineEnd = [0x0a] ∨ lineEnd = [0x0d, 0x0a]) → entries ≠ [] →
      (∀ entry ∈ entries, isPrintablePath entry.path = true) →
      parseCheckList (listText mark lineEnd lastEnd entries) = .ok entries)
    ∧ (∀ text entries, parseCheckList text = .ok entries
      ↔ ∃ lines, IsListText text lines ∧ List.Forall₂ IsListLine lines entries)
    ∧ (∀ text i, parseCheckList text = .error (.malformed i)
      ↔ ¬IsUtf16 text ∧ ∃ before bad after, IsListText text (before ++ bad :: after)
        ∧ before ++ bad :: after ≠ [[]] ∧ (∀ line ∈ before, ∃ entry, IsListLine line entry)
        ∧ (¬∃ entry, IsListLine bad entry) ∧ i = before.length + 1)
    ∧ (∀ text, parseCheckList text = .error .empty ↔ ¬IsUtf16 text ∧ IsListText text [[]])
    ∧ (∀ text, parseCheckList text = .error .utf16 ↔ IsUtf16 text)
    ∧ ∀ text, ∃! lines, IsListText text lines := by
  refine ⟨?_, fun text entries => parseCheckList_eq_ok_iff,
    fun text i => parseCheckList_eq_malformed_iff, ?_, ?_, existsUnique_lines⟩
  · intro mark lastEnd lineEnd entries hend hne h
    exact parseCheckList_listText hend mark lastEnd hne h
  · intro text
    obtain ⟨lines, hlines, hunique⟩ := existsUnique_lines text
    by_cases hmark : IsUtf16 text
    · rw [parseCheckList_of_utf16 hmark]
      exact ⟨nofun, fun h => absurd hmark h.1⟩
    rw [parseCheckList_eq hmark hlines]
    split
    · rename_i hempty
      exact ⟨fun _ => ⟨hmark, hempty ▸ hlines⟩, fun _ => rfl⟩
    · rename_i hempty
      refine ⟨fun h => ?_, fun h => absurd (hunique _ h.2).symm hempty⟩
      obtain ⟨i, hi⟩ := malformed_of_mapM h
      cases hi
  · intro text
    refine ⟨fun h => ?_, parseCheckList_of_utf16⟩
    obtain ⟨lines, hlines, -⟩ := existsUnique_lines text
    by_contra hmark
    rw [parseCheckList_eq hmark hlines] at h
    split at h
    · cases h
    · obtain ⟨i, hi⟩ := malformed_of_mapM h
      cases hi

end CheckList

end UaCrypt.Cli
