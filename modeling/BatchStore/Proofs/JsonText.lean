import BatchStore.Json.Printer
import BatchStore.Json.Reader
import Mathlib.Data.List.TakeDrop
import Mathlib.Data.List.TakeWhile

/-!
# Printed values are read back

The compact text of a value is the text of that value: what the printer writes, the
reader takes apart into the same tree. A number ends where a character stands that could
not go on with it, and a text at its closing quote, so each part is read back whatever
follows it there.
-/

namespace BatchStore.Json

namespace Reader

/-- No number goes on here. -/
def Stops (rest : List Char) : Prop :=
  ∀ c ∈ rest.head?, isDigit c = false ∧ c ≠ '.' ∧ c ≠ 'e' ∧ c ≠ 'E'

theorem stops_nil : Stops [] := nofun

theorem stops_cons {c : Char} (h : isDigit c = false ∧ c ≠ '.' ∧ c ≠ 'e' ∧ c ≠ 'E')
    (rest : List Char) : Stops (c :: rest) := by
  intro found hfound
  obtain rfl := Option.some.inj hfound
  exact h

theorem fraction?_of_ne {cs : List Char} (h : ∀ c ∈ cs.head?, c ≠ '.') :
    fraction? cs = some ([], cs) := by
  unfold fraction?
  split
  · exact absurd rfl (h '.' rfl)
  · rfl

theorem exponent?_of_ne {cs : List Char} (h : ∀ c ∈ cs.head?, c ≠ 'e' ∧ c ≠ 'E') :
    exponent? cs = some ([], cs) := by
  cases cs with
  | nil => rfl
  | cons c cs =>
    obtain ⟨hlower, hupper⟩ := h c rfl
    simp [exponent?, hlower, hupper]

section Stops

variable {cs left rest taken : List Char} (h : Stops rest)

include h

theorem span_append (hspan : cs.span isDigit = (taken, left)) :
    (cs ++ rest).span isDigit = (taken, left ++ rest) := by
  rw [List.span_eq_takeWhile_dropWhile] at hspan ⊢
  obtain ⟨rfl, rfl⟩ := Prod.mk.inj hspan
  induction cs with
  | nil =>
    cases rest with
    | nil => rfl
    | cons c rest =>
      obtain ⟨hdigit, -⟩ := h c rfl
      simp [hdigit]
  | cons c cs ih =>
    cases hdigit : isDigit c with
    | true => simpa [hdigit] using ih rfl
    | false => simp [hdigit]

theorem digits?_append (hread : digits? cs = some (taken, left)) :
    digits? (cs ++ rest) = some (taken, left ++ rest) := by
  unfold digits? at hread ⊢
  rcases hspan : cs.span isDigit with ⟨digits, after⟩
  rw [hspan] at hread
  rw [span_append h hspan]
  simp only at hread ⊢
  split at hread
  · cases hread
  · next hne =>
    obtain ⟨rfl, rfl⟩ := Prod.mk.inj (Option.some.inj hread)
    rw [if_neg hne]

theorem whole?_append (hread : whole? cs = some (taken, left)) :
    whole? (cs ++ rest) = some (taken, left ++ rest) := by
  cases cs with
  | nil => cases hread
  | cons c cs =>
    have hhead : ((cs ++ rest).head?.map isDigit).getD false =
        (cs.head?.map isDigit).getD false := by
      cases cs with
      | cons d cs => rfl
      | nil =>
        cases rest with
        | nil => rfl
        | cons d rest => exact (h d rfl).1
    rw [List.cons_append]
    simp only [whole?, hhead] at hread ⊢
    split at hread
    · next hzero =>
      rw [if_pos hzero]
      split at hread
      · cases hread
      · next hdigit =>
        obtain ⟨rfl, rfl⟩ := Prod.mk.inj (Option.some.inj hread)
        rw [if_neg hdigit]
    · next hzero =>
      rw [if_neg hzero]
      split at hread
      · next hdigit =>
        rw [if_pos hdigit]
        rcases hspan : cs.span isDigit with ⟨digits, after⟩
        rw [hspan] at hread
        obtain ⟨rfl, rfl⟩ := Prod.mk.inj (Option.some.inj hread)
        rw [span_append h hspan]
      · cases hread

/-- The digits of an exponent, behind what has been read of it. -/
theorem digits?_map_append (sign : List Char)
    (hread : (digits? cs).map (fun (digits, rest) => (sign ++ digits, rest)) = some (taken, left)) :
    (digits? (cs ++ rest)).map (fun (digits, rest) => (sign ++ digits, rest)) =
      some (taken, left ++ rest) := by
  cases hfound : digits? cs with
  | none =>
    rw [hfound] at hread
    cases hread
  | some found =>
    rw [hfound] at hread
    obtain ⟨rfl, rfl⟩ := Prod.mk.inj (Option.some.inj hread)
    rw [digits?_append h hfound]
    rfl

theorem fraction?_append (hread : fraction? cs = some (taken, left)) :
    fraction? (cs ++ rest) = some (taken, left ++ rest) := by
  by_cases hpoint : cs.head? = some '.'
  · obtain ⟨cs, rfl⟩ := List.head?_eq_some_iff.mp hpoint
    exact digits?_map_append h ['.'] hread
  · rw [fraction?_of_ne fun c hc heq => hpoint (heq ▸ hc)] at hread
    obtain ⟨rfl, rfl⟩ := Prod.mk.inj (Option.some.inj hread)
    refine fraction?_of_ne fun c hc => ?_
    cases cs with
    | nil => exact (h c hc).2.1
    | cons d cs =>
      rintro rfl
      exact hpoint hc

theorem exponent?_append (hread : exponent? cs = some (taken, left)) :
    exponent? (cs ++ rest) = some (taken, left ++ rest) := by
  cases cs with
  | nil =>
    obtain ⟨rfl, rfl⟩ := Prod.mk.inj (Option.some.inj hread)
    exact exponent?_of_ne fun c hc => (h c hc).2.2
  | cons c cs =>
    rw [List.cons_append]
    simp only [exponent?] at hread ⊢
    split at hread
    · next hexponent =>
      rw [if_pos hexponent]
      split at hread
      · exact digits?_map_append h [c, '+'] hread
      · exact digits?_map_append h [c, '-'] hread
      · next hplus hminus =>
        cases cs with
        | nil => cases hread
        | cons d cs =>
          split
          · next heq =>
            obtain ⟨rfl, -⟩ := List.cons.inj (show d :: (cs ++ rest) = _ from heq)
            exact (hplus cs rfl).elim
          · next heq =>
            obtain ⟨rfl, -⟩ := List.cons.inj (show d :: (cs ++ rest) = _ from heq)
            exact (hminus cs rfl).elim
          · exact digits?_map_append h [c] hread
    · next hexponent =>
      obtain ⟨rfl, rfl⟩ := Prod.mk.inj (Option.some.inj hread)
      rw [if_neg hexponent]
      rfl

theorem magnitude?_append {negative : Bool} {json : Json}
    (hread : magnitude? negative cs = some (json, left)) :
    magnitude? negative (cs ++ rest) = some (json, left ++ rest) := by
  unfold magnitude? at hread ⊢
  simp only [Option.bind_eq_bind, Option.bind_eq_some_iff] at hread ⊢
  obtain ⟨⟨whole, behind⟩, hwhole, ⟨fraction, further⟩, hfraction, ⟨exponent, after⟩, hexponent,
    hresult⟩ := hread
  refine ⟨_, whole?_append h hwhole, _, fraction?_append h hfraction, _,
    exponent?_append h hexponent, ?_⟩
  simp only at hresult ⊢
  split at hresult
  · next hinteger =>
    obtain ⟨rfl, rfl⟩ := Prod.mk.inj (Option.some.inj hresult)
    rw [if_pos hinteger]
    rfl
  · next hdecimal =>
    obtain ⟨rfl, rfl⟩ := Prod.mk.inj (Option.some.inj hresult)
    rw [if_neg hdecimal]
    rfl

/-- A number is read the same whatever stands behind it, if it stops there. -/
theorem number?_append {json : Json} (hread : number? cs = some (json, left)) :
    number? (cs ++ rest) = some (json, left ++ rest) := by
  unfold number? at hread
  split at hread
  · exact magnitude?_append h hread
  · next hsign =>
    cases cs with
    | nil => cases hread
    | cons c cs =>
      unfold number?
      split
      · next heq =>
        obtain ⟨rfl, -⟩ := List.cons.inj (show c :: (cs ++ rest) = _ from heq)
        exact (hsign cs rfl).elim
      · exact magnitude?_append h hread

end Stops

theorem value_toDigits (n : Nat) : value (Nat.toDigits 10 n) = n :=
  Nat.ofDigitChars_ten_toDigits

/-- A number is written without zeros in front. -/
theorem toDigits_cons {n : Nat} (h : 0 < n) :
    ∃ c cs, Nat.toDigits 10 n = c :: cs ∧ c ≠ '0' := by
  induction n using Nat.strong_induction_on with
  | h n ih =>
    by_cases hlow : n < 10
    · have hdigit : ∀ d < 10, 0 < d → d.digitChar ≠ '0' := by decide
      exact ⟨n.digitChar, [], Nat.toDigits_of_lt_base hlow, hdigit n hlow h⟩
    · obtain ⟨c, cs, hdigits, hc⟩ := ih (n / 10) (by omega) (by omega)
      rw [Nat.toDigits_of_base_le (by decide) (by omega), hdigits]
      exact ⟨c, _, rfl, hc⟩

theorem whole?_toDigits (n : Nat) :
    whole? (Nat.toDigits 10 n) = some (Nat.toDigits 10 n, []) := by
  cases Nat.eq_zero_or_pos n with
  | inl hzero =>
    rw [hzero]
    rfl
  | inr hpos =>
    obtain ⟨c, cs, hdigits, hc⟩ := toDigits_cons hpos
    have hall : ∀ d ∈ c :: cs, isDigit d = true := by
      rw [← hdigits]
      exact fun d hd => Nat.isDigit_of_mem_toDigits (by decide) (by decide) hd
    have hrest : cs.span isDigit = (cs, []) := by
      rw [List.span_eq_takeWhile_dropWhile,
        List.takeWhile_eq_self_iff.mpr fun d hd => hall d (List.mem_cons_of_mem c hd),
        List.dropWhile_eq_nil_iff.mpr fun d hd => hall d (List.mem_cons_of_mem c hd)]
    rw [hdigits]
    simp only [whole?, if_neg hc, hall c List.mem_cons_self, if_true, hrest]

theorem magnitude?_toDigits (negative : Bool) (n : Nat) (h : negative = true → n ≠ 0) :
    magnitude? negative (Nat.toDigits 10 n) =
      some (.integer (if negative then -n else n), []) := by
  unfold magnitude?
  rw [whole?_toDigits]
  have hvalue : ¬(negative = true ∧ value (Nat.toDigits 10 n) = 0) := by
    rw [value_toDigits]
    exact fun hzero => h hzero.1 hzero.2
  show (if [] = [] ∧ [] = [] ∧ ¬(negative = true ∧ value (Nat.toDigits 10 n) = 0) then _ else _) = _
  rw [if_pos ⟨rfl, rfl, hvalue⟩, value_toDigits]
  rfl

theorem number?_toString (value : Int) :
    number? (toString value).toList = some (.integer value, []) := by
  rw [Int.toString_eq_repr, Int.repr_eq_if]
  split
  · next hnonneg =>
    obtain ⟨n, rfl⟩ := Int.eq_ofNat_of_zero_le hnonneg
    rw [Int.toNat_natCast, Nat.toList_repr]
    unfold number?
    split
    · next rest heq =>
      have hdigit : isDigit '-' = true :=
        Nat.isDigit_of_mem_toDigits (by decide) (by decide) (heq ▸ List.mem_cons_self)
      cases hdigit
    · exact magnitude?_toDigits false n nofun
  · next hnegative =>
    obtain ⟨n, hn⟩ := Int.eq_ofNat_of_zero_le (show 0 ≤ -value by omega)
    rw [String.toList_append, hn, Int.toNat_natCast, Nat.toList_repr]
    have hread := magnitude?_toDigits true n fun _ => by omega
    rw [if_pos rfl, ← hn, Int.neg_neg] at hread
    exact hread

/-- The first character of a number. -/
theorem head_of_number? {cs left : List Char} {json : Json}
    (hread : number? cs = some (json, left)) :
    ∃ c tail, cs = c :: tail ∧ (c = '-' ∨ isDigit c = true) := by
  cases cs with
  | nil => cases hread
  | cons c cs =>
    refine ⟨c, cs, rfl, ?_⟩
    unfold number? at hread
    split at hread
    · next heq => exact .inl (List.cons.inj heq).1
    · unfold magnitude? at hread
      simp only [Option.bind_eq_bind, Option.bind_eq_some_iff] at hread
      obtain ⟨_, hwhole, -⟩ := hread
      simp only [whole?] at hwhole
      split at hwhole
      · next hzero =>
        rw [hzero]
        exact .inr rfl
      · split at hwhole
        · next hdigit => exact .inr hdigit
        · cases hwhole

theorem value?_digit {n : Nat} (h : n < 16) : Text.Hex.value? (Text.Hex.digit n) = some n := by
  have hall : ∀ d < 16, Text.Hex.value? (Text.Hex.digit d) = some d := by decide
  exact hall n h

/-- Four digits name the number that they are the digits of. -/
theorem pieces?_digits {n : Nat} (h : n < 65536) (read : List Piece) (rest : List Char) :
    pieces? read ('\\' :: 'u' :: Text.Hex.digits 4 n ++ rest) =
      pieces? (.ofCode n :: read) rest := by
  have hdigits : Text.Hex.digits 4 n = [Text.Hex.digit (n / 16 / 16 / 16 % 16),
      Text.Hex.digit (n / 16 / 16 % 16), Text.Hex.digit (n / 16 % 16),
      Text.Hex.digit (n % 16)] := rfl
  have hcode : code? (Text.Hex.digit (n / 16 / 16 / 16 % 16))
      (Text.Hex.digit (n / 16 / 16 % 16)) (Text.Hex.digit (n / 16 % 16))
      (Text.Hex.digit (n % 16)) = some n := by
    have hlow (m : Nat) : m % 16 < 16 := Nat.mod_lt m (by decide)
    unfold code?
    simp only [value?_digit (hlow _), Option.bind_eq_bind, Option.bind_some, Option.pure_def,
      Option.some.injEq]
    omega
  rw [hdigits]
  simp only [List.cons_append, List.nil_append, pieces?, hcode]

/-- A character is read back from its written form. -/
theorem pieces?_escaped (read : List Piece) (c : Char) (rest : List Char) :
    pieces? read (escaped c ++ rest) = pieces? (.char c :: read) rest := by
  unfold escaped
  split
  · next hquote =>
    rw [hquote]
    rfl
  · next hquote =>
    split
    · next hslash =>
      rw [hslash]
      rfl
    · next hslash =>
      split
      · next hlow =>
        have hcode : Piece.ofCode c.toNat = .char c := by
          unfold Piece.ofCode isHigh isLow
          rw [if_neg (by simp; omega), Char.ofNat_toNat]
        rw [pieces?_digits (by omega), hcode]
      · next hlow =>
        rw [List.singleton_append, pieces?.eq_def]
        split
        · next heq => cases heq
        · next heq => exact absurd (List.cons.inj heq).1 hquote
        · next heq => exact absurd (List.cons.inj heq).1 hslash
        · next heq => exact absurd (List.cons.inj heq).1 hslash
        · next heq =>
          obtain ⟨rfl, rfl⟩ := List.cons.inj heq
          rw [if_neg hlow]

theorem pieces?_text (read : List Piece) (cs rest : List Char) :
    pieces? read (cs.flatMap escaped ++ '"' :: rest) =
      some (read.reverse ++ cs.map .char, rest) := by
  induction cs generalizing read with
  | nil => simp [pieces?]
  | cons c cs ih =>
    rw [List.flatMap_cons, List.append_assoc, pieces?_escaped, ih]
    simp

theorem join?_chars (cs : List Char) : join? (cs.map .char) = some cs := by
  induction cs with
  | nil => rfl
  | cons c cs ih => simp [join?, ih]

theorem text?_text (text : String) (rest : List Char) :
    text? (text.toList.flatMap escaped ++ '"' :: rest) = some (some text, rest) := by
  unfold text?
  rw [pieces?_text, List.reverse_nil, List.nil_append]
  simp only [Option.map_some, join?_chars, String.ofList_toList]

theorem skipBlanks_cons {c : Char} (h : isBlank c = false) (rest : List Char) :
    skipBlanks (c :: rest) = c :: rest := by
  unfold skipBlanks
  rw [List.dropWhile_cons, h]
  rfl

section Number

variable {c : Char} (h : c = '-' ∨ isDigit c = true)

include h

theorem isBlank_of_number : isBlank c = false := by
  refine Bool.eq_false_iff.mpr fun hblank => ?_
  simp only [isBlank, Bool.or_eq_true, decide_eq_true_eq] at hblank
  rcases hblank with ((rfl | rfl) | rfl) | rfl
  all_goals revert h; decide

/-- What starts like a number is read as one. -/
theorem value?_number (fuel : Nat) (cs : List Char) :
    value? (fuel + 1) (c :: cs) = number? (c :: cs) := by
  have hne : c ≠ 'n' ∧ c ≠ 't' ∧ c ≠ 'f' ∧ c ≠ '"' ∧ c ≠ '[' ∧ c ≠ '\x7b' := by
    refine ⟨?_, ?_, ?_, ?_, ?_, ?_⟩
    all_goals rintro rfl; revert h; decide
  obtain ⟨hnull, htrue, hfalse, htext, harray, hobject⟩ := hne
  rw [value?, skipBlanks_cons (isBlank_of_number h)]
  split
  · next heq => exact absurd (List.cons.inj heq).1 hnull
  · next heq => exact absurd (List.cons.inj heq).1 htrue
  · next heq => exact absurd (List.cons.inj heq).1 hfalse
  · next heq => exact absurd (List.cons.inj heq).1 htext
  · next heq => exact absurd (List.cons.inj heq).1 harray
  · next heq => exact absurd (List.cons.inj heq).1 hobject
  · rfl

end Number

end Reader

open Reader

/-- What the printer writes down as it is. A text has a name, and what stands for a
number that is no integer is one. -/
inductive Printable : Json → Prop where
  | null : Printable null
  | bool (value : Bool) : Printable (bool value)
  | integer (value : Int) : Printable (integer value)
  | decimal {written : String} (h : number? written.toList = some (decimal written, [])) :
    Printable (decimal written)
  | text (text : String) : Printable (ofText text)
  | array {items : List Json} (h : ∀ item ∈ items, Printable item) : Printable (array items)
  | object {members : List (String × Json)} (h : ∀ member ∈ members, Printable member.2) :
    Printable (ofFields members)

theorem itemChars_eq (items : List Json) : itemChars items = items.map chars := by
  induction items with
  | nil => rfl
  | cons item items ih => rw [itemChars, ih, List.map_cons]

theorem textChars_append (text : String) (rest : List Char) :
    textChars text ++ rest = '"' :: (text.toList.flatMap escaped ++ '"' :: rest) := by
  simp [textChars]

/-- The written form of a member. -/
def memberText (member : String × Json) : List Char :=
  textChars member.1 ++ ':' :: member.2.chars

theorem memberChars_eq (members : List (String × Json)) :
    memberChars (members.map fun (name, value) => (some name, value)) =
      members.map memberText := by
  induction members with
  | nil => rfl
  | cons member members ih => rw [List.map_cons, memberChars, ih, List.map_cons]; rfl

/-- A value starts with a character that is no blank and closes nothing. -/
theorem Printable.head {json : Json} (h : json.Printable) :
    ∃ c tail, json.chars = c :: tail ∧ isBlank c = false ∧ c ≠ ']' := by
  have hnumber {c : Char} (hc : c = '-' ∨ isDigit c = true) : isBlank c = false ∧ c ≠ ']' :=
    ⟨isBlank_of_number hc, by rintro rfl; revert hc; decide⟩
  cases h with
  | null => exact ⟨'n', _, rfl, by decide⟩
  | bool value =>
    cases value with
    | true => exact ⟨'t', _, rfl, by decide⟩
    | false => exact ⟨'f', _, rfl, by decide⟩
  | integer value =>
    obtain ⟨c, tail, hchars, hc⟩ := head_of_number? (number?_toString value)
    exact ⟨c, tail, hchars, hnumber hc⟩
  | decimal hread =>
    obtain ⟨c, tail, hchars, hc⟩ := head_of_number? hread
    exact ⟨c, tail, hchars, hnumber hc⟩
  | text text => exact ⟨'"', _, rfl, by decide⟩
  | array h => exact ⟨'[', _, rfl, by decide⟩
  | object h => exact ⟨'\x7b', _, rfl, by decide⟩

/-- Printed, the value is read back, whatever follows it and stops a number. -/
def ReadsBack (json : Json) : Prop :=
  ∀ fuel rest, 2 * json.chars.length ≤ fuel → Stops rest →
    value? fuel (json.chars ++ rest) = some (json, rest)

theorem readsBack_number (json : Json) (hread : number? json.chars = some (json, [])) :
    json.ReadsBack := by
  intro fuel rest hfuel hrest
  obtain ⟨c, tail, hchars, hc⟩ := head_of_number? hread
  rw [hchars] at hread hfuel ⊢
  obtain ⟨fuel, rfl⟩ := Nat.exists_eq_succ_of_ne_zero (show fuel ≠ 0 by
    rw [List.length_cons] at hfuel
    omega)
  rw [List.cons_append, value?_number hc, ← List.cons_append, number?_append hrest hread]
  rfl

theorem separated_cons {written : List Char} {more : List (List Char)} (h : more ≠ []) :
    separated (written :: more) = written ++ ',' :: separated more := by
  cases more with
  | nil => exact absurd rfl h
  | cons next more => rfl

theorem separated_head (c : Char) (tail : List Char) (more : List (List Char)) :
    ∃ after, separated ((c :: tail) :: more) = c :: after := by
  cases more with
  | nil => exact ⟨tail, rfl⟩
  | cons next more => exact ⟨_, rfl⟩

theorem items?_readBack {items : List Json} (h : ∀ item ∈ items, item.ReadsBack)
    (hne : items ≠ []) (fuel : Nat) (rest : List Char)
    (hfuel : 2 * (separated (items.map chars)).length + 1 ≤ fuel) :
    items? fuel (separated (items.map chars) ++ ']' :: rest) = some (items, rest) := by
  induction items generalizing fuel with
  | nil => exact absurd rfl hne
  | cons item items ih =>
    obtain ⟨fuel, rfl⟩ := Nat.exists_eq_succ_of_ne_zero (show fuel ≠ 0 by omega)
    have hitem := h item List.mem_cons_self
    by_cases hlast : items = []
    · subst hlast
      have hfits : 2 * item.chars.length ≤ fuel := by
        simp only [List.map_cons, List.map_nil, separated] at hfuel
        omega
      have hread := hitem fuel (']' :: rest) hfits (stops_cons (by decide) _)
      show items? (fuel + 1) (item.chars ++ ']' :: rest) = _
      simp only [items?, hread, skipBlanks_cons (show isBlank ']' = false from rfl)]
    · have hmore : items.map chars ≠ [] := by simpa using hlast
      rw [List.map_cons, separated_cons hmore] at hfuel ⊢
      rw [List.length_append, List.length_cons] at hfuel
      have hread := hitem fuel (',' :: (separated (items.map chars) ++ ']' :: rest)) (by omega)
        (stops_cons (by decide) _)
      have hrest := ih (fun other hmem => h other (List.mem_cons_of_mem item hmem)) hlast fuel
        (by omega)
      rw [List.append_assoc, List.cons_append]
      simp only [items?, hread, skipBlanks_cons (show isBlank ',' = false from rfl), hrest,
        Option.map_some]

theorem members?_readBack {members : List (String × Json)}
    (h : ∀ member ∈ members, member.2.ReadsBack) (hne : members ≠ []) (fuel : Nat)
    (rest : List Char)
    (hfuel : 2 * (separated (members.map memberText)).length + 1 ≤ fuel) :
    members? fuel (separated (members.map memberText) ++ '\x7d' :: rest) =
      some (members.map fun (name, value) => (some name, value), rest) := by
  induction members generalizing fuel with
  | nil => exact absurd rfl hne
  | cons member members ih =>
    obtain ⟨name, value⟩ := member
    obtain ⟨fuel, rfl⟩ := Nat.exists_eq_succ_of_ne_zero (show fuel ≠ 0 by omega)
    have hvalue : value.ReadsBack := h (name, value) List.mem_cons_self
    have htext (rest : List Char) : memberText (name, value) ++ rest =
        '"' :: (name.toList.flatMap escaped ++ '"' :: ':' :: (value.chars ++ rest)) := by
      rw [memberText, List.append_assoc, textChars_append, List.cons_append]
    have hlength : value.chars.length ≤ (memberText (name, value)).length := by
      simp only [memberText, List.length_append, List.length_cons]
      omega
    by_cases hlast : members = []
    · subst hlast
      have hfits : 2 * value.chars.length ≤ fuel := by
        simp only [List.map_cons, List.map_nil, separated] at hfuel
        omega
      have hread := hvalue fuel ('\x7d' :: rest) hfits (stops_cons (by decide) _)
      show members? (fuel + 1) (memberText (name, value) ++ '\x7d' :: rest) = _
      rw [htext]
      simp only [members?, skipBlanks_cons (show isBlank '"' = false from rfl), text?_text,
        skipBlanks_cons (show isBlank ':' = false from rfl), hread,
        skipBlanks_cons (show isBlank '\x7d' = false from rfl)]
      rfl
    · have hmore : members.map memberText ≠ [] := by simpa using hlast
      rw [List.map_cons, separated_cons hmore] at hfuel ⊢
      rw [List.length_append, List.length_cons] at hfuel
      have hread := hvalue fuel (',' :: (separated (members.map memberText) ++ '\x7d' :: rest))
        (by omega) (stops_cons (by decide) _)
      have hrest := ih (fun other hmem => h other (List.mem_cons_of_mem _ hmem)) hlast fuel
        (by omega)
      rw [List.append_assoc, List.cons_append, htext]
      simp only [members?, skipBlanks_cons (show isBlank '"' = false from rfl), text?_text,
        skipBlanks_cons (show isBlank ':' = false from rfl), hread,
        skipBlanks_cons (show isBlank ',' = false from rfl), hrest, Option.map_some,
        List.map_cons]

theorem readsBack_of_succ {json : Json} (h : json.Printable)
    (hread : ∀ fuel rest, 2 * json.chars.length ≤ fuel + 1 → Stops rest →
      value? (fuel + 1) (json.chars ++ rest) = some (json, rest)) : json.ReadsBack := by
  intro fuel rest hfuel hrest
  obtain ⟨c, tail, hchars, -⟩ := h.head
  obtain ⟨fuel, rfl⟩ := Nat.exists_eq_succ_of_ne_zero (show fuel ≠ 0 by
    rw [hchars, List.length_cons] at hfuel
    omega)
  exact hread fuel rest hfuel hrest

theorem readsBack_array {items : List Json} (h : ∀ item ∈ items, item.Printable)
    (hread : ∀ item ∈ items, item.ReadsBack) : (array items).ReadsBack := by
  refine readsBack_of_succ (.array h) fun fuel rest hfuel hrest => ?_
  have hchars (rest : List Char) : (array items).chars ++ rest =
      '[' :: (separated (items.map chars) ++ ']' :: rest) := by
    simp [chars, itemChars_eq]
  have hlength : (separated (items.map chars)).length + 2 = (array items).chars.length := by
    simp [chars, itemChars_eq]
  rw [hchars, value?, skipBlanks_cons (show isBlank '[' = false from rfl)]
  simp only
  cases items with
  | nil => rfl
  | cons item more =>
    obtain ⟨c, tail, hhead, hblank, hother⟩ := (h item List.mem_cons_self).head
    obtain ⟨after, hstart⟩ := separated_head c tail (more.map chars)
    rw [← hhead, ← List.map_cons] at hstart
    have hitems := items?_readBack hread (List.cons_ne_nil item more) fuel rest (by omega)
    rw [hstart, List.cons_append] at hitems ⊢
    rw [skipBlanks_cons hblank]
    split
    · next heq => exact absurd (List.cons.inj heq).1 hother
    · rw [hitems]
      rfl

theorem readsBack_object {members : List (String × Json)}
    (h : ∀ member ∈ members, member.2.Printable)
    (hread : ∀ member ∈ members, member.2.ReadsBack) : (ofFields members).ReadsBack := by
  refine readsBack_of_succ (.object h) fun fuel rest hfuel hrest => ?_
  have hchars (rest : List Char) : (ofFields members).chars ++ rest =
      '\x7b' :: (separated (members.map memberText) ++ '\x7d' :: rest) := by
    simp [ofFields, chars, memberChars_eq]
  have hlength : (separated (members.map memberText)).length + 2 =
      (ofFields members).chars.length := by
    simp [ofFields, chars, memberChars_eq]
  rw [hchars, value?, skipBlanks_cons (show isBlank '\x7b' = false from rfl)]
  simp only
  cases members with
  | nil => rfl
  | cons member more =>
    obtain ⟨after, hstart⟩ := separated_head '"'
      (member.1.toList.flatMap escaped ++ '"' :: ':' :: member.2.chars) (more.map memberText)
    rw [← textChars_append, show textChars member.1 ++ _ = memberText member from rfl,
      ← List.map_cons] at hstart
    have hmembers := members?_readBack hread (List.cons_ne_nil member more) fuel rest
      (by omega)
    rw [hstart, List.cons_append] at hmembers ⊢
    rw [skipBlanks_cons (show isBlank '"' = false from rfl)]
    split
    · next heq => cases (List.cons.inj heq).1
    · rw [hmembers]
      rfl

/-- What can be printed is read back. -/
theorem Printable.readsBack {json : Json} (h : json.Printable) : json.ReadsBack := by
  induction h with
  | null => exact readsBack_of_succ .null fun fuel rest _ _ => rfl
  | bool value =>
    cases value with
    | true => exact readsBack_of_succ (.bool true) fun fuel rest _ _ => rfl
    | false => exact readsBack_of_succ (.bool false) fun fuel rest _ _ => rfl
  | integer value => exact readsBack_number (.integer value) (number?_toString value)
  | decimal hread => exact readsBack_number (.decimal _) hread
  | text text =>
    refine readsBack_of_succ (.text text) fun fuel rest _ _ => ?_
    show value? (fuel + 1) (textChars text ++ rest) = _
    rw [textChars_append, value?, skipBlanks_cons (show isBlank '"' = false from rfl)]
    simp only [text?_text, Option.map_some]
    rfl
  | array h ih => exact readsBack_array h ih
  | object h ih => exact readsBack_object h ih

/-- The compact text of a value is a text with this value. -/
theorem parse?_render {json : Json} (h : json.Printable) : parse? json.render = some json := by
  have hread := h.readsBack (2 * json.chars.length + 2) [] (by omega) stops_nil
  unfold parse? render
  rw [List.append_nil] at hread
  simp only [String.toList_ofList, hread]
  rfl

end BatchStore.Json
