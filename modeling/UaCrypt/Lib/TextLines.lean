import Mathlib

/-!
# Text as bytes, and its lines

- `utf8`, `fromUtf8`: `str::as_bytes` and `str::from_utf8`; `mem_utf8`: a byte below 0x80 is
  a character of its own.
- `splitOnce`: a text in two at the first of a character.
- `endLines`: the lines of a text whose line ends are longer than the separator.
- `splitOn_eq_iff`: cutting at a separator, as a relation of a text and its lines; `IsLines`:
  the lines of a text whose last line end is optional.
- `mapM_eq_ok_iff`, `mapM_eq_error_iff`: a line-by-line reader that stops at the first error.
-/

namespace TextLines

/-! ## UTF-8 -/

/-- `str::as_bytes`. -/
def utf8 (s : String) : List UInt8 := s.toByteArray.data.toList

/-- `str::from_utf8`. -/
def fromUtf8 (bytes : List UInt8) : Option String := String.fromUTF8? ⟨bytes.toArray⟩

theorem fromUtf8_eq_some_iff {bytes : List UInt8} {s : String} :
    fromUtf8 bytes = some s ↔ bytes = utf8 s := by
  rw [fromUtf8, String.fromUTF8?]
  constructor
  · intro h
    split at h
    · rw [Option.some.injEq] at h
      rw [← h]
      rfl
    · cases h
  · rintro rfl
    have hbytes : (⟨(utf8 s).toArray⟩ : ByteArray) = s.toByteArray := by rw [utf8]
    have hvalid : (⟨(utf8 s).toArray⟩ : ByteArray).IsValidUTF8 := by
      rw [hbytes]
      exact s.isValidUTF8
    rw [dif_pos hvalid, Option.some.injEq]
    exact String.toByteArray_inj.mp hbytes

theorem utf8_append (s t : String) : utf8 (s ++ t) = utf8 s ++ utf8 t := by
  simp [utf8]

theorem utf8_ofList (chars : List Char) :
    utf8 (String.ofList chars) = chars.flatMap String.utf8EncodeChar := by
  simp [utf8, String.ofList, List.utf8Encode]

theorem utf8_eq (s : String) : utf8 s = s.toList.flatMap String.utf8EncodeChar := by
  rw [← utf8_ofList, String.ofList_toList]

/-- In the code of a character beyond ASCII no byte is below 0x80. -/
theorem mem_utf8EncodeChar {b : UInt8} {c : Char} (hb : b ∈ String.utf8EncodeChar c)
    (hascii : b < 0x80) : c.toNat = b.toNat := by
  have hlt : b.toNat < 128 := UInt8.lt_iff_toNat_lt.mp hascii
  have hval : c.val.toNat = c.toNat := rfl
  rw [String.utf8EncodeChar] at hb
  -- every byte of a longer code is one of `0b10…` or of `0b11…`
  split at hb
  · obtain rfl := List.mem_singleton.mp hb
    rw [UInt8.toNat_ofNat']
    omega
  · have hhigh {n : Nat} (hn : 128 ≤ n ∧ n < 256) : b ≠ UInt8.ofNat n := by
      rintro rfl
      rw [UInt8.toNat_ofNat'] at hlt
      omega
    split at hb
    · simp only [List.mem_cons, List.not_mem_nil, or_false] at hb
      rcases hb with hb | hb <;> exact absurd hb (hhigh (by omega))
    · split at hb <;> simp only [List.mem_cons, List.not_mem_nil, or_false] at hb
      · rcases hb with hb | hb | hb <;> exact absurd hb (hhigh (by omega))
      · rcases hb with hb | hb | hb | hb <;> exact absurd hb (hhigh (by omega))

theorem mem_utf8 {b : UInt8} {s : String} (hb : b ∈ utf8 s) (hascii : b < 0x80) :
    ∃ c ∈ s.toList, c.toNat = b.toNat := by
  rw [utf8_eq, List.mem_flatMap] at hb
  obtain ⟨c, hc, hb⟩ := hb
  exact ⟨c, hc, mem_utf8EncodeChar hb hascii⟩

/-! ## A text in two -/

/-- `str::split_once` at a character. -/
def splitOnce (sep : Char) (s : String) : Option (String × String) :=
  match s.toList.dropWhile (· != sep) with
  | [] => none
  | _ :: back => some (String.ofList (s.toList.takeWhile (· != sep)), String.ofList back)

theorem splitOnce_eq_none_iff {sep : Char} {s : String} :
    splitOnce sep s = none ↔ sep ∉ s.toList := by
  rw [splitOnce]
  split
  · rename_i h
    have hne := List.dropWhile_eq_nil_iff.mp h
    exact ⟨fun _ hsep => by simpa using hne sep hsep, fun _ => rfl⟩
  · rename_i c back h
    refine ⟨nofun, fun hsep => ?_⟩
    have hnil : s.toList.dropWhile (· != sep) = [] := by
      refine List.dropWhile_eq_nil_iff.mpr fun d hd => ?_
      rw [bne_iff_ne]
      rintro rfl
      exact hsep hd
    rw [hnil] at h
    cases h

theorem splitOnce_eq_some_iff {sep : Char} {s front back : String} :
    splitOnce sep s = some (front, back)
      ↔ s = front ++ String.singleton sep ++ back ∧ sep ∉ front.toList := by
  rw [splitOnce]
  constructor
  · intro h
    split at h
    · cases h
    · rename_i c rest hdrop
      obtain ⟨rfl, rfl⟩ := Prod.mk.inj (Option.some.inj h)
      have hc : c = sep := by
        have hne : s.toList.dropWhile (· != sep) ≠ [] := by
          rw [hdrop]
          exact List.cons_ne_nil c rest
        have hhead := List.head_dropWhile_not (· != sep) hne
        simpa [hdrop] using hhead
      constructor
      · rw [← String.toList_inj]
        simp only [String.toList_append, String.toList_ofList, String.toList_singleton]
        rw [List.append_assoc, List.singleton_append, ← hc, ← hdrop, hc, List.takeWhile_append_dropWhile]
      · intro hsep
        rw [String.toList_ofList] at hsep
        simpa using List.mem_takeWhile_imp hsep
  · rintro ⟨rfl, hsep⟩
    have hall : ∀ c ∈ front.toList, (c != sep) = true := by
      intro c hc
      rw [bne_iff_ne]
      rintro rfl
      exact hsep hc
    have hlist : (front ++ String.singleton sep ++ back).toList
        = front.toList ++ sep :: back.toList := by simp
    rw [hlist, List.dropWhile_append_of_pos hall, List.takeWhile_append_of_pos hall]
    simp
/-! ## Lines -/

section Lines

variable {α : Type} {sep : α}

/-- The lines of a text whose line ends are `front ++ [sep]`, the last one or not. -/
def endLines (front : List α) (lastEnd : Bool) : List (List α) → List (List α)
  | [] => []
  | [line] => [if lastEnd then line ++ front else line]
  | line :: lines => (line ++ front) :: endLines front lastEnd lines

theorem intercalate_endLines (front : List α) (lastEnd : Bool) {lines : List (List α)}
    (h : lines ≠ []) :
    (front ++ [sep]).intercalate lines ++ (if lastEnd then front ++ [sep] else [])
      = [sep].intercalate (endLines front lastEnd lines) ++ (if lastEnd then [sep] else []) := by
  induction lines with
  | nil => exact absurd rfl h
  | cons line lines ih =>
    cases lines with
    | nil =>
      rw [endLines, List.intercalate_singleton, List.intercalate_singleton]
      cases lastEnd
      · rfl
      · rw [if_pos rfl, if_pos rfl, if_pos rfl, List.append_assoc]
    | cons next lines =>
      have hne : endLines front lastEnd (next :: lines) ≠ [] := by
        cases lines <;> exact List.cons_ne_nil _ _
      rw [List.intercalate_cons_cons, endLines, List.intercalate_cons_of_ne_nil hne]
      · simp only [List.append_assoc]
        rw [ih (List.cons_ne_nil next lines)]
      · exact List.cons_ne_nil next lines

theorem mem_endLines {front line : List α} {lastEnd : Bool} {lines : List (List α)}
    (h : line ∈ endLines front lastEnd lines) :
    ∃ first ∈ lines, line = first ∨ line = first ++ front := by
  induction lines with
  | nil => cases h
  | cons first lines ih =>
    cases lines with
    | nil =>
      rw [endLines, List.mem_singleton] at h
      refine ⟨first, List.mem_singleton_self first, ?_⟩
      rw [h]
      cases lastEnd
      · exact .inl rfl
      · exact .inr rfl
    | cons next lines =>
      rw [endLines] at h
      · rcases List.mem_cons.mp h with rfl | h
        · exact ⟨first, List.mem_cons_self, .inr rfl⟩
        · obtain ⟨other, hother, hline⟩ := ih h
          exact ⟨other, List.mem_cons_of_mem first hother, hline⟩
      · exact List.cons_ne_nil next lines

theorem not_suffix_intercalate {lines : List (List α)} (hne : lines ≠ [])
    (h : ∀ line ∈ lines, line ≠ [] ∧ sep ∉ line) :
    [sep].intercalate lines ≠ [] ∧ ¬[sep] <:+ [sep].intercalate lines := by
  induction lines with
  | nil => exact absurd rfl hne
  | cons line lines ih =>
    obtain ⟨⟨hline, hsep⟩, hrest⟩ := List.forall_mem_cons.mp h
    cases lines with
    | nil =>
      rw [List.intercalate_singleton]
      exact ⟨hline, fun hsuffix => hsep (hsuffix.subset (List.mem_singleton_self sep))⟩
    | cons next lines =>
      obtain ⟨hnil, hsuffix⟩ := ih (List.cons_ne_nil next lines) hrest
      rw [List.intercalate_cons_cons]
      refine ⟨List.append_ne_nil_of_right_ne_nil _ hnil, fun hlong => hsuffix ?_⟩
      exact List.suffix_of_suffix_length_le hlong (List.suffix_append _ _)
        (List.length_pos_iff.mpr hnil)

variable [DecidableEq α]

theorem not_mem_of_mem_splitOn {text line : List α} (h : line ∈ text.splitOn sep) :
    sep ∉ line := by
  induction text generalizing line with
  | nil =>
    rw [List.splitOn_nil, List.mem_singleton] at h
    rw [h]
    exact List.not_mem_nil
  | cons x text ih =>
    rw [List.splitOn_cons_eq_if_modifyHead] at h
    split at h
    · rcases List.mem_cons.mp h with rfl | h
      · exact List.not_mem_nil
      · exact ih h
    · rename_i hx
      cases hsplit : text.splitOn sep with
      | nil => exact absurd hsplit (List.splitOn_ne_nil sep text)
      | cons first rest =>
        rw [hsplit, List.modifyHead_cons] at h
        rcases List.mem_cons.mp h with rfl | h
        · have hfirst : sep ∉ first := ih (by rw [hsplit]; exact List.mem_cons_self)
          rw [List.mem_cons, not_or]
          exact ⟨fun heq => hx (by rw [heq]; exact beq_self_eq_true x), hfirst⟩
        · exact ih (by rw [hsplit]; exact List.mem_cons_of_mem first h)

theorem splitOn_eq_iff {text : List α} {lines : List (List α)} :
    text.splitOn sep = lines
      ↔ text = [sep].intercalate lines ∧ lines ≠ [] ∧ ∀ line ∈ lines, sep ∉ line := by
  constructor
  · rintro rfl
    exact ⟨(List.intercalate_splitOn sep).symm, List.splitOn_ne_nil sep text,
      fun line hline => not_mem_of_mem_splitOn hline⟩
  · rintro ⟨rfl, hne, hlines⟩
    exact List.splitOn_intercalate sep hlines hne

/-- The lines of the text, its last line end taken off where it is there. -/
def IsLines (sep : α) (text : List α) (lines : List (List α)) : Prop :=
  ∃ back, (back = [sep] ∨ back = [] ∧ ¬[sep] <:+ text)
    ∧ text = [sep].intercalate lines ++ back ∧ lines ≠ [] ∧ ∀ line ∈ lines, sep ∉ line

theorem isLines_append_sep {body : List α} {lines : List (List α)} :
    IsLines sep (body ++ [sep]) lines ↔ body.splitOn sep = lines := by
  rw [splitOn_eq_iff]
  constructor
  · rintro ⟨back, rfl | ⟨rfl, hsuffix⟩, htext, hlines⟩
    · exact ⟨List.append_cancel_right htext, hlines⟩
    · exact absurd (List.suffix_append body [sep]) hsuffix
  · rintro ⟨rfl, hlines⟩
    exact ⟨[sep], .inl rfl, rfl, hlines⟩

theorem isLines_of_not_suffix {text : List α} {lines : List (List α)} (h : ¬[sep] <:+ text) :
    IsLines sep text lines ↔ text.splitOn sep = lines := by
  rw [splitOn_eq_iff]
  constructor
  · rintro ⟨back, rfl | ⟨rfl, -⟩, htext, hlines⟩
    · exact absurd ⟨_, htext.symm⟩ h
    · exact ⟨by rwa [List.append_nil] at htext, hlines⟩
  · rintro ⟨htext, hlines⟩
    exact ⟨[], .inr ⟨rfl, h⟩, by rwa [List.append_nil], hlines⟩

end Lines

/-! ## Readers that stop at the first error -/

section Readers

variable {ε α β : Type} {read : α → Except ε β}

theorem mapM_cons (x : α) (xs : List α) :
    (x :: xs).mapM read = match read x with
      | .error e => .error e
      | .ok y => (xs.mapM read).map (y :: ·) := by
  rw [List.mapM_cons]
  cases read x with
  | error e => rfl
  | ok y =>
    cases xs.mapM read with
    | error e => rfl
    | ok ys => rfl

theorem mapM_eq_ok_iff {xs : List α} {ys : List β} :
    xs.mapM read = .ok ys ↔ List.Forall₂ (fun x y => read x = .ok y) xs ys := by
  induction xs generalizing ys with
  | nil =>
    rw [List.mapM_nil, List.forall₂_nil_left_iff]
    exact ⟨fun h => (Except.ok.inj h).symm, fun h => congrArg Except.ok h.symm⟩
  | cons x xs ih =>
    rw [mapM_cons, List.forall₂_cons_left_iff]
    cases hx : read x with
    | error e =>
      refine ⟨nofun, ?_⟩
      rintro ⟨y, -, hy, -⟩
      cases hy
    | ok y =>
      dsimp only
      cases hxs : xs.mapM read with
      | error e =>
        refine ⟨nofun, ?_⟩
        rintro ⟨-, rest, -, hrest, -⟩
        rw [← ih, hxs] at hrest
        cases hrest
      | ok rest =>
        have hread := ih.mp hxs
        constructor
        · intro h
          exact ⟨y, rest, rfl, hread, (Except.ok.inj h).symm⟩
        · rintro ⟨y', rest', hy, hrest, rfl⟩
          rw [← ih, hxs] at hrest
          rw [Except.ok.inj hy, Except.ok.inj hrest]
          rfl

theorem mapM_eq_error_iff {xs : List α} {e : ε} :
    xs.mapM read = .error e ↔ ∃ before bad after, xs = before ++ bad :: after
      ∧ (∀ x ∈ before, ∃ y, read x = .ok y) ∧ read bad = .error e := by
  induction xs with
  | nil =>
    rw [List.mapM_nil]
    refine ⟨nofun, ?_⟩
    rintro ⟨before, bad, after, h, -⟩
    cases before <;> cases h
  | cons x xs ih =>
    rw [mapM_cons]
    cases hx : read x with
    | error e' =>
      constructor
      · intro h
        refine ⟨[], x, xs, rfl, fun _ h => absurd h List.not_mem_nil, ?_⟩
        rw [hx]
        exact congrArg Except.error (Except.error.inj h)
      · rintro ⟨before, bad, after, h, hbefore, hbad⟩
        cases before with
        | nil =>
          obtain ⟨rfl, rfl⟩ := List.cons.inj h
          exact congrArg Except.error (Except.error.inj (hx.symm.trans hbad))
        | cons y before =>
          obtain ⟨rfl, -⟩ := List.cons.inj h
          obtain ⟨z, hz⟩ := hbefore x List.mem_cons_self
          rw [hx] at hz
          cases hz
    | ok y =>
      have hmap : (xs.mapM read).map (y :: ·) = .error e ↔ xs.mapM read = .error e := by
        cases xs.mapM read <;> simp [Except.map]
      dsimp only
      rw [hmap, ih]
      constructor
      · rintro ⟨before, bad, after, rfl, hbefore, hbad⟩
        exact ⟨x :: before, bad, after, rfl, List.forall_mem_cons.mpr ⟨⟨y, hx⟩, hbefore⟩, hbad⟩
      · rintro ⟨before, bad, after, h, hbefore, hbad⟩
        cases before with
        | nil =>
          obtain ⟨rfl, rfl⟩ := List.cons.inj h
          rw [hx] at hbad
          cases hbad
        | cons z before =>
          obtain ⟨rfl, rfl⟩ := List.cons.inj h
          exact ⟨before, bad, after, rfl, (List.forall_mem_cons.mp hbefore).2, hbad⟩

end Readers

end TextLines
