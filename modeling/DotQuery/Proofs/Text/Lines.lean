import DotQuery.Text.Utf8
import Mathlib.Data.List.TakeWhile

/-! Lines of bytes and the texts they encode.

A newline is written by its own byte, and no other character is written with that byte
(`newlineByte_mem_encode_iff`). So texts without newlines, each with one behind it, are
encoded as just as many lines, and each line decodes to its text (`splitLines_encode`).
Bytes that end in a newline are whole lines, whatever stands behind them
(`splitLines_append`), and so are the bytes before any line (`isLine_of_splitLines`). -/
namespace DotQuery.Text

/-! ### The bytes of a text -/

theorem encode_eq_flatMap (s : String) : encode s = s.toList.flatMap String.utf8EncodeChar := by
  conv => lhs; rw [← String.ofList_toList (s := s)]
  rw [encode, String.toUTF8_eq_toByteArray, String.toByteArray_ofList, List.utf8Encode]
  simp

theorem encode_append (s t : String) : encode (s ++ t) = encode s ++ encode t := by
  rw [encode_eq_flatMap, String.toList_append, List.flatMap_append, ← encode_eq_flatMap,
    ← encode_eq_flatMap]

/-- A byte below 128 is written for its own character only. -/
theorem toNat_of_mem_utf8EncodeChar {b : UInt8} {c : Char} (hb : b.toNat < 128)
    (h : b ∈ String.utf8EncodeChar c) : c.toNat = b.toNat := by
  have hval : c.toNat = c.val.toNat := rfl
  unfold String.utf8EncodeChar at h
  dsimp only at h
  split at h
  · rw [List.mem_singleton.1 h, hval, UInt8.toNat_ofNat']
    omega
  -- every byte of a longer character has its highest bit set
  · have hhigh : ∀ n, 128 ≤ n % 256 → b ≠ UInt8.ofNat n := by
      intro n hn he
      rw [he, UInt8.toNat_ofNat'] at hb
      omega
    split at h
    · simp only [List.mem_cons, List.not_mem_nil, or_false] at h
      rcases h with h | h <;> exact absurd h (hhigh _ (by omega))
    · split at h
      · simp only [List.mem_cons, List.not_mem_nil, or_false] at h
        rcases h with h | h | h <;> exact absurd h (hhigh _ (by omega))
      · simp only [List.mem_cons, List.not_mem_nil, or_false] at h
        rcases h with h | h | h | h <;> exact absurd h (hhigh _ (by omega))

theorem newlineByte_mem_encode_iff {s : String} : newlineByte ∈ encode s ↔ '\n' ∈ s.toList := by
  rw [encode_eq_flatMap, List.mem_flatMap]
  constructor
  · rintro ⟨c, hc, h⟩
    have hn : c.toNat = '\n'.toNat := toNat_of_mem_utf8EncodeChar (by decide) h
    rwa [← Char.toNat_inj.1 hn]
  · intro h
    exact ⟨'\n', h, by decide⟩

/-! ### Lines -/

section
variable {line rest : List UInt8} (h : newlineByte ∉ line)
include h

theorem splitLine_line :
    splitLine (line ++ newlineByte :: rest) = (line ++ [newlineByte], rest) := by
  have hline : ∀ b ∈ line, (b != newlineByte) = true := by
    intro b hb
    exact bne_iff_ne.2 fun he => h (he ▸ hb)
  rw [splitLine, List.dropWhile_append_of_pos hline, List.takeWhile_append_of_pos hline]
  simp

theorem splitLines_line :
    splitLines (line ++ newlineByte :: rest) = (line ++ [newlineByte]) :: splitLines rest := by
  rw [splitLines, dif_neg (by simp), splitLine_line h]

end

/-- The bytes are one line, with the newline that ends it. -/
def IsLine (line : List UInt8) : Prop :=
  ∃ body, line = body ++ [newlineByte] ∧ newlineByte ∉ body

/-- Whole lines are found again, and do not change those behind them. -/
theorem splitLines_flatten_append {lines : List (List UInt8)} (h : ∀ line ∈ lines, IsLine line)
    (rest : List UInt8) : splitLines (lines.flatten ++ rest) = lines ++ splitLines rest := by
  induction lines with
  | nil => rfl
  | cons line lines ih =>
    rw [List.forall_mem_cons] at h
    obtain ⟨⟨body, rfl, hbody⟩, h⟩ := h
    rw [List.flatten_cons, List.append_assoc, List.append_assoc, List.singleton_append,
      splitLines_line hbody, ih h, List.cons_append]

theorem splitLines_nil : splitLines [] = [] := by
  rw [splitLines, dif_pos rfl]

theorem splitLines_flatten {lines : List (List UInt8)} (h : ∀ line ∈ lines, IsLine line) :
    splitLines lines.flatten = lines := by
  have hlines := splitLines_flatten_append h []
  rwa [splitLines_nil, List.append_nil, List.append_nil] at hlines

/-- Bytes without a newline are one line, else they are cut behind the first newline. -/
theorem splitLine_cases (bytes : List UInt8) :
    (newlineByte ∉ bytes ∧ splitLine bytes = (bytes, [])) ∨
      ∃ body rest, newlineByte ∉ body ∧ bytes = body ++ newlineByte :: rest ∧
        splitLine bytes = (body ++ [newlineByte], rest) := by
  by_cases h : newlineByte ∈ bytes
  · obtain ⟨body, rest, rfl, hbody⟩ := List.eq_append_cons_of_mem h
    exact .inr ⟨body, rest, hbody, rfl, splitLine_line hbody⟩
  · refine .inl ⟨h, ?_⟩
    have hall : ∀ b ∈ bytes, (b != newlineByte) = true := fun b hb =>
      bne_iff_ne.2 fun he => h (he ▸ hb)
    rw [splitLine, List.dropWhile_eq_nil_iff.2 hall]

/-- The lines are all of the bytes, in order. -/
theorem flatten_splitLines (bytes : List UInt8) : (splitLines bytes).flatten = bytes := by
  induction bytes using splitLines.induct with
  | case1 => rw [splitLines_nil, List.flatten_nil]
  | case2 bytes hne ih =>
    rw [splitLines, dif_neg hne, List.flatten_cons, ih]
    rcases splitLine_cases bytes with ⟨-, hsplit⟩ | ⟨body, rest, -, rfl, hsplit⟩ <;>
      simp [hsplit]

/-- Bytes that end in a newline, if there are any, are whole lines. -/
theorem isLine_of_mem_splitLines {bytes : List UInt8} (h : ∀ b ∈ bytes.getLast?, b = newlineByte) :
    ∀ line ∈ splitLines bytes, IsLine line := by
  induction bytes using splitLines.induct with
  | case1 =>
    rw [splitLines_nil]
    exact nofun
  | case2 bytes hne ih =>
    rw [splitLines, dif_neg hne, List.forall_mem_cons]
    rcases splitLine_cases bytes with ⟨hnot, -⟩ | ⟨body, rest, hbody, rfl, hsplit⟩
    · have hlast := bytes.getLast_mem hne
      rw [h _ (List.getLast?_eq_some_getLast hne)] at hlast
      exact absurd hlast hnot
    · rw [hsplit] at ih ⊢
      refine ⟨⟨body, rfl, hbody⟩, ih fun b hb => h b ?_⟩
      rw [List.getLast?_append, List.getLast?_cons, Option.mem_def.1 hb]
      rfl

/-- The lines of bytes that end in a newline, and of the bytes behind them. -/
theorem splitLines_append {a : List UInt8} (h : ∀ b ∈ a.getLast?, b = newlineByte)
    (b : List UInt8) : splitLines (a ++ b) = splitLines a ++ splitLines b := by
  have hlines := splitLines_flatten_append (isLine_of_mem_splitLines h) b
  rwa [flatten_splitLines] at hlines

/-- Only the last line may have no newline. -/
theorem isLine_of_splitLines {bytes : List UInt8} {before after : List (List UInt8)}
    (h : splitLines bytes = before ++ after) (hafter : after ≠ []) :
    ∀ line ∈ before, IsLine line := by
  induction before generalizing bytes with
  | nil => exact nofun
  | cons line before ih =>
    rw [splitLines, List.cons_append] at h
    split at h
    · cases h
    · obtain ⟨rfl, hrest⟩ := List.cons.inj h
      refine List.forall_mem_cons.2 ⟨?_, ih hrest⟩
      rcases splitLine_cases bytes with ⟨-, hsplit⟩ | ⟨body, rest, hbody, -, hsplit⟩
      · rw [hsplit, splitLines_nil, eq_comm, List.append_eq_nil_iff] at hrest
        exact absurd hrest.2 hafter
      · rw [hsplit]
        exact ⟨body, rfl, hbody⟩

/-- Texts without newlines, each with one behind it, are the lines of their bytes. -/
theorem splitLines_encode {texts : List String} (h : ∀ t ∈ texts, '\n' ∉ t.toList) :
    splitLines (encode (String.join (texts.map (· ++ "\n")))) =
      texts.map fun t => encode (t ++ "\n") := by
  induction texts with
  | nil =>
    have hempty : encode (String.join ([].map (· ++ "\n"))) = [] := by decide
    rw [hempty, splitLines_nil, List.map_nil]
  | cons t texts ih =>
    rw [List.forall_mem_cons] at h
    have hbyte : newlineByte ∉ encode t := mt newlineByte_mem_encode_iff.1 h.1
    have hend : encode "\n" = [newlineByte] := by decide
    rw [List.map_cons, List.map_cons, String.join_cons, encode_append, encode_append, hend,
      List.append_assoc, List.singleton_append, splitLines_line hbyte, ih h.2]

end DotQuery.Text
