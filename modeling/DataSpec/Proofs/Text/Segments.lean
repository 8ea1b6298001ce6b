import DataSpec.Text.Segments
import Mathlib.Data.List.Basic

/-!
# Segments of texts

A text is cut at a character in one way if the character is not in what comes before
(`append_cons_inj`). What stands behind the last slash of a text is its last segment
(`lastSegment_append`). Texts with slashes between them are read back as their segments, if they
are segments at all (`segments_join`).
-/

set_option autoImplicit false

namespace DataSpec.Text

/-! ## The last segment -/

/-- Texts that are the same are the same up to the first place of a character, and behind it. -/
theorem append_cons_inj {c : Char} {before before' after after' : List Char}
    (h : c ∉ before) (h' : c ∉ before') :
    before ++ c :: after = before' ++ c :: after' ↔ before = before' ∧ after = after' := by
  refine ⟨fun heq => ?_, fun ⟨hbefore, hafter⟩ => by rw [hbefore, hafter]⟩
  have hcut : ∀ (before after : List Char), c ∉ before →
      (before ++ c :: after).takeWhile (· ≠ c) = before := by
    intro before after h
    rw [List.takeWhile_append_of_pos fun d hd => by simpa using ne_of_mem_of_not_mem hd h]
    simp
  obtain rfl : before = before' := by rw [← hcut before after h, heq, hcut _ _ h']
  exact ⟨rfl, (List.cons.inj (List.append_cancel_left heq)).2⟩

/-- What stands behind the last slash of a text is its last segment, if there is something and
no number sign in it. -/
theorem lastSegment_append {s label : String} (hne : label ≠ "")
    (hlabel : ∀ c ∈ label.toList, c ≠ '/' ∧ c ≠ '#') : lastSegment (s ++ "/" ++ label) = label := by
  have hslash : (s ++ "/" ++ label).toList.reverse =
      label.toList.reverse ++ '/' :: s.toList.reverse := by simp
  have htrim : trimEnd '/' (s ++ "/" ++ label) = s ++ "/" ++ label := by
    obtain ⟨c, cs, hcs⟩ := List.exists_cons_of_ne_nil
      (show label.toList.reverse ≠ [] by simpa using hne)
    have hc : c ∈ label.toList := List.mem_reverse.mp (hcs ▸ List.mem_cons_self)
    rw [trimEnd, hslash, hcs, List.cons_append,
      List.dropWhile_cons_of_neg (by simpa using (hlabel c hc).1), ← List.cons_append, ← hcs,
      ← hslash, List.reverse_reverse, String.ofList_toList]
  have hall : ∀ c ∈ label.toList.reverse, (decide (c ≠ '/') && decide (c ≠ '#')) = true := by
    intro c hc
    simpa using hlabel c (List.mem_reverse.mp hc)
  rw [lastSegment, htrim, hslash, List.takeWhile_append_of_pos hall]
  simp

/-! ## All segments -/

theorem toList_join (sep : String) : ∀ parts : List String,
    (join sep parts).toList = sep.toList.intercalate (parts.map String.toList)
  | [] => rfl
  | [part] => by simp [join, List.intercalate]
  | part :: part' :: rest => by
    simp [join, List.intercalate_cons_cons, toList_join sep (part' :: rest)]

theorem toList_join_empty : ∀ parts : List String,
    (join "" parts).toList = parts.flatMap String.toList
  | [] => rfl
  | [part] => by simp [join]
  | part :: part' :: rest => by simp [join, toList_join_empty (part' :: rest)]

/-- A character of joined texts is one of theirs or stands between them. -/
theorem mem_toList_join {sep : String} {c : Char} : ∀ {parts : List String},
    c ∈ (join sep parts).toList → c ∈ sep.toList ∨ ∃ part ∈ parts, c ∈ part.toList
  | [], hc => by simp [join] at hc
  | [part], hc => .inr ⟨part, List.mem_singleton_self part, hc⟩
  | part :: part' :: rest, hc => by
    rw [show join sep (part :: part' :: rest) = part ++ sep ++ join sep (part' :: rest) from rfl,
      String.toList_append, String.toList_append] at hc
    rcases List.mem_append.mp hc with hc | hc
    · rcases List.mem_append.mp hc with hc | hc
      · exact .inr ⟨part, List.mem_cons_self, hc⟩
      · exact .inl hc
    · exact (mem_toList_join hc).imp_right fun ⟨p, hp, hcp⟩ => ⟨p, List.mem_cons_of_mem _ hp, hcp⟩

theorem fields_eq_splitOnP (isSep : Char → Bool) : ∀ cs, fields isSep cs = cs.splitOnP isSep
  | [] => rfl
  | c :: cs => by
    rw [List.splitOnP_cons_eq_if_modifyHead, fields, fields_eq_splitOnP isSep cs]
    obtain ⟨f, fs, hcut⟩ := List.exists_cons_of_ne_nil (List.splitOnP_ne_nil isSep cs)
    simp [hcut]

theorem fields_slash (cs : List Char) : fields (· = '/') cs = cs.splitOn '/' := by
  rw [fields_eq_splitOnP, List.splitOn_eq_splitOnP]
  rfl

theorem fields_ne_nil (isSep : Char → Bool) (cs : List Char) : fields isSep cs ≠ [] := by
  rw [fields_eq_splitOnP]
  exact List.splitOnP_ne_nil isSep cs

/-- A text is its stretches with the slashes between them. -/
theorem join_fields (s : String) :
    join "/" ((fields (· = '/') s.toList).map String.ofList) = s := by
  refine String.toList_injective ?_
  rw [toList_join, fields_slash, List.map_map]
  simp [Function.comp_def, List.intercalate_splitOn '/']

theorem join_concat {sep : String} {parts : List String} (hne : parts ≠ []) (part : String) :
    join sep (parts ++ [part]) = join sep parts ++ sep ++ part := by
  induction parts with
  | nil => exact absurd rfl hne
  | cons first parts ih =>
    cases parts with
    | nil => simp [join]
    | cons second parts =>
      simpa [join, String.append_assoc] using ih (List.cons_ne_nil second parts)

/-- The last of some texts may be joined first. -/
theorem join_append_join {sep : String} {parts : List String} (hne : parts ≠ []) :
    ∀ before : List String, join sep (before ++ [join sep parts]) = join sep (before ++ parts)
  | [] => rfl
  | [first] => by
    obtain ⟨part, parts, rfl⟩ := List.exists_cons_of_ne_nil hne
    rfl
  | first :: second :: before => by
    have ih := @join_append_join sep parts hne (second :: before)
    simp only [List.cons_append, join] at ih ⊢
    rw [ih]

/-- A text that can stand between two slashes. -/
structure IsSegment (s : String) : Prop where
  ne_empty : s ≠ ""
  slash_not_mem : '/' ∉ s.toList

/-- A stretch between separators has none in it. -/
theorem isSep_of_mem_fields {isSep : Char → Bool} {f : List Char} :
    ∀ {cs : List Char}, f ∈ fields isSep cs → ∀ c ∈ f, isSep c = false
  | [], hf, c, hc => by simp [List.mem_singleton.mp hf] at hc
  | d :: cs, hf, c, hc => by
    rw [fields] at hf
    split at hf
    · rcases List.mem_cons.mp hf with rfl | hf
      · simp at hc
      · exact isSep_of_mem_fields hf c hc
    · rename_i hd
      split at hf
      · rw [List.mem_singleton.mp hf, List.mem_singleton] at hc
        rw [hc]
        exact Bool.eq_false_iff.mpr hd
      · rename_i g gs hcut
        rcases List.mem_cons.mp hf with rfl | hf
        · rcases List.mem_cons.mp hc with rfl | hc
          · exact Bool.eq_false_iff.mpr hd
          · exact isSep_of_mem_fields (hcut ▸ List.mem_cons_self) c hc
        · exact isSep_of_mem_fields (hcut ▸ List.mem_cons_of_mem _ hf) c hc

theorem isSegment_of_mem_segments {s t : String} (ht : t ∈ segments s) : IsSegment t := by
  obtain ⟨f, hf, rfl⟩ := List.mem_map.mp ht
  obtain ⟨hf, hne⟩ := List.mem_filter.mp hf
  refine ⟨fun h => ?_, fun hslash => ?_⟩
  · simp [String.ofList_eq_empty_iff.mp h] at hne
  · rw [String.toList_ofList] at hslash
    simpa using isSep_of_mem_fields hf '/' hslash

/-- Texts without slashes are the stretches of the text that has slashes between them. -/
theorem fields_join {ss : List String} (hne : ss ≠ []) (h : ∀ s ∈ ss, '/' ∉ s.toList) :
    (fields (· = '/') (join "/" ss).toList).map String.ofList = ss := by
  rw [fields_slash, toList_join, show "/".toList = ['/'] from rfl,
    List.splitOn_intercalate '/' (by simpa using h) (by simpa using hne), List.map_map]
  simp [Function.comp_def]

theorem join_inj {ss ss' : List String} (hne : ss ≠ []) (hne' : ss' ≠ [])
    (h : ∀ s ∈ ss, '/' ∉ s.toList) (h' : ∀ s ∈ ss', '/' ∉ s.toList) :
    join "/" ss = join "/" ss' ↔ ss = ss' :=
  ⟨fun heq => by rw [← fields_join hne h, heq, fields_join hne' h'], congrArg _⟩

/-- Of texts with slashes between them, those are segments that are not empty. -/
theorem segments_join_eq_filter {ss : List String} (h : ∀ s ∈ ss, '/' ∉ s.toList) :
    segments (join "/" ss) = ss.filter (· ≠ "") := by
  by_cases hne : ss = []
  · rw [hne]
    rfl
  · rw [segments, ← fields_join hne h, List.filter_map]
    congr 2
    · funext f
      cases f <;> simp [String.ofList_eq_empty_iff]
    · rw [fields_join hne h]

theorem segments_join {ss : List String} (h : ∀ s ∈ ss, IsSegment s) :
    segments (join "/" ss) = ss := by
  rw [segments_join_eq_filter fun s hs => (h s hs).slash_not_mem]
  exact List.filter_eq_self.mpr fun s hs => by simpa using (h s hs).ne_empty

end DataSpec.Text
