import DataSpec.Json.Printer
import DataSpec.Json.Token
import DataSpec.Proofs.Decimal.Digits

/-!
# The tokens of a written text

`Token.Reads text ts` says that a text is read as the tokens `ts` wherever it stands between
tokens, as long as no word goes on behind it; if nothing needs to be asked of what comes behind it,
the text is `Token.Closed`. Both are put together from their parts (`Closed.append`,
`Reads.append`). What the printer writes for a number, for a text and for the marks and blanks
between them is read as what it was written for (`reads_int`, `closed_quoted`, `closed_mark`,
`closed_newLine`).
-/

set_option autoImplicit false

namespace DataSpec.Json.Token

/-! ## Texts read in place -/

/-- No word goes on at the start of the text. -/
def Ends (rest : List Char) : Prop := ∀ c ∈ rest.head?, isWordChar c = false

/-- A text is read as the tokens, whatever was read before, if a word that it ends with is over. -/
def Reads (text : String) (ts : List Token) : Prop :=
  ∀ done rest, Ends rest →
    scanFrom .gap done (text.toList ++ rest) = scanFrom .gap (ts.reverse ++ done) rest

/-- A text is read as the tokens, whatever was read before and whatever follows. -/
def Closed (text : String) (ts : List Token) : Prop :=
  ∀ done rest, scanFrom .gap done (text.toList ++ rest) = scanFrom .gap (ts.reverse ++ done) rest

section

variable {a b : String} {ts us : List Token}

theorem Closed.reads (h : Closed a ts) : Reads a ts := fun done rest _ => h done rest

/-- Behind a closed text reading goes on as before it. -/
theorem Closed.append (ha : Closed a ts) (hb : Reads b us) : Reads (a ++ b) (ts ++ us) := by
  intro done rest hends
  rw [String.toList_append, List.append_assoc, ha, hb _ _ hends, List.reverse_append,
    List.append_assoc]

theorem Closed.append_closed (ha : Closed a ts) (hb : Closed b us) :
    Closed (a ++ b) (ts ++ us) := by
  intro done rest
  rw [String.toList_append, List.append_assoc, ha, hb, List.reverse_append, List.append_assoc]

/-- A closed text that does not begin with a character of words ends the word before it. -/
theorem Reads.append {c : Char} (ha : Reads a ts) (hb : Closed b us)
    (hfirst : b.toList.head? = some c) (hc : isWordChar c = false) :
    Closed (a ++ b) (ts ++ us) := by
  intro done rest
  have hends : Ends (b.toList ++ rest) := by
    intro c' hc'
    rw [List.head?_append, hfirst] at hc'
    obtain rfl := Option.some.inj hc'
    exact hc
  rw [String.toList_append, List.append_assoc, ha _ _ hends, hb, List.reverse_append,
    List.append_assoc]

/-- The tokens of a text are those that it is read as. -/
theorem Reads.scan_eq (h : Reads a ts) : scan a = some ts := by
  have hread := h [] [] (by rintro c hc; cases hc)
  rw [List.append_nil, List.append_nil] at hread
  rw [scan, hread, scanFrom, Scan.finish, Option.map_some, List.reverse_reverse, List.append_nil]

end

/-! ## Marks and blanks -/

theorem scanFrom_gap_cons {c : Char} {ts : List Token} (h : Scan.begin c = some (.gap, ts))
    (done : List Token) (rest : List Char) :
    scanFrom .gap done (c :: rest) = scanFrom .gap (ts.reverse ++ done) rest := by
  rw [scanFrom, Scan.step, h]

/-- A mark is read as its token. -/
theorem closed_mark {s : String} {c : Char} {ts : List Token} (hs : s.toList = [c])
    (h : Scan.begin c = some (.gap, ts)) : Closed s ts := by
  intro done rest
  rw [hs, List.cons_append, List.nil_append, scanFrom_gap_cons h]

theorem closed_blanks {s : String} (h : ∀ c ∈ s.toList, isBlank c = true) : Closed s [] := by
  have skip : ∀ (cs : List Char), (∀ c ∈ cs, isBlank c = true) → ∀ done rest,
      scanFrom .gap done (cs ++ rest) = scanFrom .gap done rest := by
    intro cs
    induction cs with
    | nil => exact fun _ done rest => rfl
    | cons c cs ih =>
      intro hcs done rest
      have hc : Scan.begin c = some (.gap, []) := if_pos (hcs c List.mem_cons_self)
      rw [List.cons_append, scanFrom_gap_cons hc]
      exact ih (fun d hd => hcs d (List.mem_cons_of_mem c hd)) done rest
  exact fun done rest => skip s.toList h done rest

theorem toList_newLine (depth : Nat) :
    (newLine depth).toList = '\n' :: List.replicate (2 * depth) ' ' := by
  simp [newLine]

/-- The start of a line is blank. -/
theorem closed_newLine (depth : Nat) : Closed (newLine depth) [] := by
  refine closed_blanks fun c hc => ?_
  rw [toList_newLine] at hc
  obtain rfl | hc := List.mem_cons.mp hc
  · decide
  · rw [List.eq_of_mem_replicate hc]
    decide

/-! ## Words -/

theorem scanFrom_word {cs : List Char} (h : ∀ c ∈ cs, isWordChar c = true)
    (read : List Char) (done : List Token) (rest : List Char) :
    scanFrom (.word read) done (cs ++ rest) = scanFrom (.word (cs.reverse ++ read)) done rest := by
  induction cs generalizing read with
  | nil => rfl
  | cons c cs ih =>
    have hc : isWordChar c = true := h c List.mem_cons_self
    rw [List.cons_append, scanFrom, Scan.step, if_pos hc, List.reverse_cons, List.append_assoc]
    exact ih (fun d hd => h d (List.mem_cons_of_mem c hd)) (c :: read)

/-- A word that is over is its token. -/
theorem scanFrom_word_of_ends {read : List Char} {t : Token} (h : ofWord read.reverse = some t)
    {rest : List Char} (hends : Ends rest) (done : List Token) :
    scanFrom (.word read) done rest = scanFrom .gap (t :: done) rest := by
  cases rest with
  | nil => simp [scanFrom, Scan.finish, h]
  | cons c rest =>
    have hc : isWordChar c = false := hends c rfl
    rw [scanFrom, scanFrom, Scan.step, Scan.step, hc, h]
    cases Scan.begin c with
    | none => rfl
    | some next => simp

/-- No mark, blank or quote is a character of words. -/
theorem begin_of_isWordChar {c : Char} (h : isWordChar c = true) :
    Scan.begin c = some (.word [c], []) := by
  have hne : ∀ d : Char, isWordChar d = false → c ≠ d := by
    rintro d hd rfl
    rw [hd] at h
    cases h
  have hblank : isBlank c = false := by
    simp [isBlank, hne ' ' (by decide), hne '\n' (by decide), hne '\r' (by decide),
      hne '\t' (by decide)]
  unfold Scan.begin
  rw [hblank, if_neg Bool.false_ne_true, if_neg (hne '"' (by decide)),
    if_neg (hne '[' (by decide)), if_neg (hne ']' (by decide)), if_neg (hne '\x7b' (by decide)),
    if_neg (hne '\x7d' (by decide)), if_neg (hne ',' (by decide)), if_neg (hne ':' (by decide)),
    if_pos h]

/-- A word is read as its token if a word may not go on behind it. -/
theorem reads_word {s : String} {t : Token} (hne : s.toList ≠ [])
    (hword : s.toList.all isWordChar = true) (h : ofWord s.toList = some t) : Reads s [t] := by
  intro done rest hends
  have hword := List.all_eq_true.mp hword
  cases hs : s.toList with
  | nil => exact absurd hs hne
  | cons c cs =>
    rw [hs] at hword h
    have hc : isWordChar c = true := hword c List.mem_cons_self
    have hcs : ∀ d ∈ cs, isWordChar d = true := fun d hd => hword d (List.mem_cons_of_mem c hd)
    rw [List.cons_append, scanFrom, Scan.step, begin_of_isWordChar hc]
    simp only [List.reverse_nil, List.nil_append, List.reverse_singleton, List.singleton_append]
    rw [scanFrom_word hcs]
    exact scanFrom_word_of_ends (by simpa using h) hends done

/-! ## Numbers -/

theorem isWhole_toDigits (n : Nat) : isWhole (Nat.toDigits 10 n) = true := by
  rcases Nat.eq_zero_or_pos n with rfl | hpos
  · decide
  · cases hds : Nat.toDigits 10 n with
    | nil => exact absurd hds Nat.toDigits_ne_nil
    | cons c cs =>
      have hc : c ≠ '0' := Decimal.ne_zero_of_toDigits_eq_cons hpos hds
      unfold isWhole
      split <;> simp_all

/-- The digits of a number of 64 bits are that number. -/
theorem ofNumber_toDigits {n : Nat} (h : n < UInt64.size) :
    ofNumber false (Nat.toDigits 10 n) = some (.int n) := by
  have hspan := Decimal.spanDigits_of_all fun c (hc : c ∈ Nat.toDigits 10 n) =>
    Decimal.isDigit_of_mem_toDigits hc
  have hsize : (n : Int) < (UInt64.size : Nat) := Int.ofNat_lt.mpr h
  simp only [ofNumber, hspan, Decimal.natOfDigits_toDigits, isWhole_toDigits, List.isEmpty_nil,
    Bool.not_true, Bool.not_false, Bool.and_false, Bool.false_and, Bool.true_and,
    Bool.false_eq_true, if_false, decide_eq_true_eq, if_pos hsize]

/-- Behind a sign they are its opposite. -/
theorem ofNumber_neg_toDigits {n : Nat} (hpos : 0 < n) (h : Int64.minValue.toInt ≤ -(n : Int)) :
    ofNumber true (Nat.toDigits 10 n) = some (.int (-n)) := by
  have hspan := Decimal.spanDigits_of_all fun c (hc : c ∈ Nat.toDigits 10 n) =>
    Decimal.isDigit_of_mem_toDigits hc
  have hne : (n : Int) ≠ 0 := Int.ofNat_ne_zero.mpr (Nat.pos_iff_ne_zero.mp hpos)
  simp only [ofNumber, hspan, Decimal.natOfDigits_toDigits, isWhole_toDigits, List.isEmpty_nil,
    Bool.not_true, Bool.true_and, Bool.false_eq_true, if_false, Bool.and_eq_true,
    decide_eq_true_eq, if_pos (And.intro hne h)]

theorem isWordChar_of_isDigit {c : Char} (h : c.isDigit = true) : isWordChar c = true := by
  simp [isWordChar, Char.isAlphanum, h]

theorem ofWord_of_isDigit {c : Char} {cs : List Char} (h : c.isDigit = true) :
    ofWord (c :: cs) = ofNumber false (c :: cs) := by
  unfold ofWord
  split <;> simp_all

/-- An integer of 64 bits is read back. -/
theorem reads_int {n : Int} (hmin : Int64.minValue.toInt ≤ n) (hmax : n < UInt64.size) :
    Reads (toString n) [.int n] := by
  cases n with
  | ofNat n =>
    have htext : (toString (Int.ofNat n)).toList = Nat.toDigits 10 n := Nat.toList_repr
    have hnumber := ofNumber_toDigits (Int.ofNat_lt.mp hmax)
    refine reads_word (htext ▸ Nat.toDigits_ne_nil) (List.all_eq_true.mpr fun c hc => ?_) ?_
    · exact isWordChar_of_isDigit (Decimal.isDigit_of_mem_toDigits (htext ▸ hc))
    · rw [htext]
      cases hds : Nat.toDigits 10 n with
      | nil => exact absurd hds Nat.toDigits_ne_nil
      | cons d ds =>
        have hd : d.isDigit = true :=
          Decimal.isDigit_of_mem_toDigits (n := n) (hds ▸ List.mem_cons_self)
        rw [ofWord_of_isDigit hd, ← hds, hnumber]
        rfl
  | negSucc n =>
    have htext : (toString (Int.negSucc n)).toList = '-' :: Nat.toDigits 10 (n + 1) := by
      change ("-" ++ Nat.repr (n + 1)).toList = _
      rw [String.toList_append, Nat.toList_repr]
      rfl
    refine reads_word (htext ▸ List.cons_ne_nil _ _) (List.all_eq_true.mpr fun c hc => ?_) ?_
    · obtain rfl | hc := List.mem_cons.mp (htext ▸ hc)
      · decide
      · exact isWordChar_of_isDigit (Decimal.isDigit_of_mem_toDigits hc)
    · rw [htext]
      exact ofNumber_neg_toDigits (Nat.succ_pos n) hmin

/-! ## Texts -/

theorem hexValue?_hexDigit {n : Nat} (h : n < 16) : hexValue? (Text.hexDigit n) = some n := by
  have all : ∀ n : Fin 16, hexValue? (Text.hexDigit n) = some n.val := by decide
  exact all ⟨n, h⟩

/-- A control character is read back from its number. -/
theorem scanFrom_unit {c : Char} (h : c.toNat < 0x20) (read : List Char) (done : List Token)
    (rest : List Char) :
    scanFrom (.text read .whole) done
        (['\\', 'u', '0', '0', Text.hexDigit (c.toNat / 16),
          Text.hexDigit (c.toNat % 16)] ++ rest) =
      scanFrom (.text (c :: read) .whole) done rest := by
  have hhigh := hexValue?_hexDigit (show c.toNat / 16 < 16 by omega)
  have hlow := hexValue?_hexDigit (show c.toNat % 16 < 16 by omega)
  have hzero : hexValue? '0' = some 0 := by decide
  have hvalue : 16 * (c.toNat / 16) + c.toNat % 16 = c.toNat := by omega
  have hend : Scan.endUnit read .whole c.toNat = .text (c :: read) .whole := by
    unfold Scan.endUnit
    rw [if_neg (by omega), if_neg (by omega), Scan.add, Char.ofNat_toNat]
    rfl
  simp [scanFrom, Scan.step, hzero, hhigh, hlow, hvalue, hend]

/-- A character of a text is read back from how it is written : as it is, behind a backslash, or
as a number. -/
theorem scanFrom_escapeChar (c : Char) (read : List Char) (done : List Token)
    (rest : List Char) :
    scanFrom (.text read .whole) done (escapeChar c ++ rest) =
      scanFrom (.text (c :: read) .whole) done rest := by
  unfold escapeChar
  split
  · rfl
  · rfl
  · rfl
  · rfl
  · rfl
  · rfl
  · rfl
  · rename_i hquote hbackslash _ _ _ _ _
    split
    · exact scanFrom_unit ‹_› read done rest
    · rename_i hprintable
      rw [List.singleton_append, scanFrom, Scan.step, if_neg hquote, if_neg hbackslash,
        if_neg hprintable]
      rfl

theorem scanFrom_escaped (cs read : List Char) (done : List Token) (rest : List Char) :
    scanFrom (.text read .whole) done (cs.flatMap escapeChar ++ rest) =
      scanFrom (.text (cs.reverse ++ read) .whole) done rest := by
  induction cs generalizing read with
  | nil => rfl
  | cons c cs ih =>
    rw [List.flatMap_cons, List.append_assoc, scanFrom_escapeChar, ih, List.reverse_cons,
      List.append_assoc]
    rfl

/-- A text between quotes is read back. -/
theorem closed_quoted (s : String) : Closed (quoted s) [.str s] := by
  intro done rest
  have htoken : ofText (s.toList.reverse ++ []) .whole = .str s := by
    simp [ofText]
  rw [quoted, String.toList_ofList, List.cons_append, scanFrom, List.append_assoc]
  change scanFrom (.text [] .whole) done _ = _
  rw [scanFrom_escaped, List.singleton_append, scanFrom, Scan.step, if_pos rfl, htoken]

end DataSpec.Json.Token
