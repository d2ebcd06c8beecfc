import JsonShape.Json.Token
import Mathlib.Data.List.Infix

/-!
# What readers leave of a text

A reader takes bytes off the front of a text: what it leaves is a suffix of what it was given.

* `Json.Leaves` says so of one answer, and holds of every token: `leaves_readWord`,
  `leaves_readNumber`, `leaves_readString`.
-/

namespace JsonShape

namespace Json

variable {α β ε : Type} {c : Cursor} {b : UInt8} {text more : List UInt8} {p : Position}

namespace Cursor

theorem skip_suffix (c : Cursor) : c.skip.rest <:+ c.rest := by
  obtain ⟨_ | ⟨b, text⟩, p⟩ := c
  · exact List.suffix_rfl
  · exact List.suffix_cons b text

theorem next?_suffix {c' : Cursor} (h : c.next? = some (b, c')) : c'.rest <:+ c.rest := by
  obtain ⟨_ | ⟨b', text⟩, p⟩ := c
  · cases h
  · cases h
    exact List.suffix_cons b text

/-- The byte to come stands in front of what is left behind it. -/
theorem rest_eq_of_peek? (h : c.peek? = some b) : c.rest = b :: c.skip.rest := by
  obtain ⟨_ | ⟨b', text⟩, p⟩ := c
  · cases h
  · cases h
    rfl

theorem skipBlanksFrom_suffix (text : List UInt8) (p : Position) :
    (skipBlanksFrom text p).rest <:+ text := by
  induction text generalizing p with
  | nil => exact List.suffix_rfl
  | cons b text ih =>
    unfold skipBlanksFrom
    split
    · exact (ih _).trans (List.suffix_cons b text)
    · exact List.suffix_rfl

theorem skipBlanks_suffix (c : Cursor) : c.skipBlanks.rest <:+ c.rest :=
  skipBlanksFrom_suffix c.rest c.position

theorem skipBlanks_skipBlanksFrom (text : List UInt8) (p : Position) :
    (skipBlanksFrom text p).skipBlanks = skipBlanksFrom text p := by
  induction text generalizing p with
  | nil => rfl
  | cons b text ih =>
    by_cases hb : isBlank b
    · rw [skipBlanksFrom, if_pos hb]
      exact ih _
    · have hstop : skipBlanksFrom (b :: text) p = ⟨b :: text, p⟩ := by
        rw [skipBlanksFrom, if_neg hb]
      rw [hstop, skipBlanks, hstop]

theorem skipBlanks_skipBlanks (c : Cursor) : c.skipBlanks.skipBlanks = c.skipBlanks :=
  skipBlanks_skipBlanksFrom c.rest c.position

end Cursor

/-- If the reader answers, it leaves a suffix of `text`. -/
def Leaves (r : Except ε (α × Cursor)) (text : List UInt8) : Prop :=
  ∀ x c, r = .ok (x, c) → c.rest <:+ text

theorem leaves_ok {x : α} (h : c.rest <:+ text) :
    Leaves (.ok (x, c) : Except ε (α × Cursor)) text := by
  rintro _ _ ⟨⟩
  exact h

theorem leaves_error (e : ε) : Leaves (.error e : Except ε (α × Cursor)) text := by
  rintro _ _ ⟨⟩

theorem Leaves.mono {r : Except ε (α × Cursor)} (h : Leaves r text) (hmore : text <:+ more) :
    Leaves r more :=
  fun x c hr => (h x c hr).trans hmore

theorem Leaves.cons {r : Except ε (α × Cursor)} (h : Leaves r text) (b : UInt8) :
    Leaves r (b :: text) :=
  h.mono (List.suffix_cons b text)

theorem Leaves.bind {x : Except ε (α × Cursor)} {f : α × Cursor → Except ε (β × Cursor)}
    (hx : Leaves x text) (hf : ∀ a c, x = .ok (a, c) → Leaves (f (a, c)) c.rest) :
    Leaves (x >>= f) text := by
  rcases x with e | ⟨a, c⟩
  · exact leaves_error e
  · exact (hf a c rfl).mono (hx a c rfl)

/-- Computations behind the reader `x` only matter where it answers, with a cursor in `text`. -/
theorem Leaves.bind_congr {x : Except ε (α × Cursor)} {f g : α × Cursor → Except ε β}
    (hx : Leaves x text) (h : ∀ a c, x = .ok (a, c) → c.rest <:+ text → f (a, c) = g (a, c)) :
    x >>= f = x >>= g := by
  rcases x with e | ⟨a, c⟩
  · rfl
  · exact h a c rfl (hx a c rfl)

/-! ## Words and numbers -/

theorem leaves_readWord (word : List UInt8) (c : Cursor) : Leaves (readWord word c) c.rest := by
  induction word generalizing c with
  | nil => exact leaves_ok List.suffix_rfl
  | cons b word ih =>
    obtain ⟨_ | ⟨b', text⟩, p⟩ := c
    · exact leaves_error _
    · show Leaves (if b' = b then readWord word _ else _) _
      split
      · exact (ih _).cons b'
      · exact leaves_error _

theorem skipDigits_suffix (text : List UInt8) (p : Position) :
    (skipDigits text p).rest <:+ text := by
  induction text generalizing p with
  | nil => exact List.suffix_rfl
  | cons b text ih =>
    unfold skipDigits
    split
    · exact (ih _).trans (List.suffix_cons b text)
    · exact List.suffix_rfl

section Number

variable {negative positive : Bool} {significand : Nat} {start exponent : Int}

theorem leaves_finishFloat : Leaves (finishFloat negative significand exponent c) c.rest := by
  unfold finishFloat
  cases Binary64.ofDecimal? negative significand exponent with
  | none => exact leaves_error _
  | some x => exact leaves_ok List.suffix_rfl

theorem leaves_readExponentDigits (value : Nat) (text : List UInt8) (p : Position) :
    Leaves (readExponentDigits negative significand start positive value text p) text := by
  fun_induction readExponentDigits negative significand start positive value text p with
  | case1 => exact leaves_finishFloat
  | case2 => exact leaves_finishFloat
  | case3 value b text p d _ _ ih => exact ih.cons b
  | case4 => exact leaves_error _
  | case5 value b text p =>
    exact leaves_ok ((skipDigits_suffix text _).trans (List.suffix_cons b text))

theorem leaves_readExponent (c : Cursor) :
    Leaves (readExponent negative significand start c) c.rest := by
  fun_cases readExponent negative significand start c with
  | case3 afterMark positive afterSign hsign _ _ hnext d _ =>
    have hsuffix : afterSign.rest <:+ afterMark.rest := by
      split at hsign
      all_goals cases hsign
      · exact afterMark.skip_suffix
      · exact afterMark.skip_suffix
      · exact List.suffix_rfl
    exact (leaves_readExponentDigits d _ _).mono
      ((Cursor.next?_suffix hnext).trans (hsuffix.trans c.skip_suffix))
  | _ => exact leaves_error _

theorem leaves_afterFraction (c : Cursor) :
    Leaves (afterFraction negative significand exponent c) c.rest := by
  unfold afterFraction
  split
  · exact leaves_readExponent c
  · exact leaves_finishFloat

theorem leaves_readFractionDigits (places : Nat) (text : List UInt8) (p : Position) :
    Leaves (readFractionDigits negative exponent significand places text p) text := by
  fun_induction readFractionDigits negative exponent significand places text p with
  | case1 => exact leaves_error _
  | case2 => exact leaves_afterFraction _
  | case3 => exact leaves_error _
  | case4 => exact leaves_afterFraction _
  | case5 significand places b text p d _ _ ih => exact ih.cons b
  | case6 => exact (leaves_afterFraction _).mono (skipDigits_suffix _ _)

theorem leaves_readFraction (c : Cursor) :
    Leaves (readFraction negative significand exponent c) c.rest :=
  (leaves_readFractionDigits 0 c.skip.rest c.skip.position).mono c.skip_suffix

theorem leaves_afterWhole (c : Cursor) :
    Leaves (afterWhole negative significand c) c.rest := by
  unfold afterWhole
  split
  · exact leaves_readFraction c
  · split
    · exact leaves_readExponent c
    · split
      · split
        · exact leaves_ok List.suffix_rfl
        · exact leaves_finishFloat
      · exact leaves_ok List.suffix_rfl

theorem leaves_readLongWhole (extra : Nat) (text : List UInt8) (p : Position) :
    Leaves (readLongWhole negative significand extra text p) text := by
  fun_induction readLongWhole negative significand extra text p with
  | case1 => exact leaves_finishFloat
  | case2 extra b text p _ ih => exact ih.cons b
  | case3 => exact leaves_readFraction _
  | case4 => exact leaves_afterFraction _

theorem leaves_readWhole (text : List UInt8) (p : Position) :
    Leaves (readWhole negative significand text p) text := by
  fun_induction readWhole negative significand text p with
  | case1 => exact leaves_afterWhole _
  | case2 => exact leaves_afterWhole _
  | case3 significand b text p d _ _ ih => exact ih.cons b
  | case4 => exact leaves_readLongWhole _ _ _

/-- A number takes its first digit at least. -/
theorem leaves_readNumber (negative : Bool) (c : Cursor) :
    Leaves (readNumber negative c) c.skip.rest := by
  have hskip : ∀ b c', c.next? = some (b, c') → c.skip = c' := by
    intro b c' h
    rw [Cursor.skip, h]
  fun_cases readNumber negative c with
  | case4 b c' hnext _ _ =>
    rw [hskip b c' hnext]
    exact leaves_afterWhole c'
  | case5 b c' hnext d _ _ =>
    rw [hskip b c' hnext]
    exact leaves_readWhole _ _
  | _ => exact leaves_error _

end Number

theorem leaves_decodeBytes (bytes : List UInt8) (c : Cursor) :
    Leaves (decodeBytes bytes c) c.rest := by
  unfold decodeBytes
  split
  · exact leaves_ok List.suffix_rfl
  · exact leaves_error _

theorem leaves_readStringBytes (gathered text : List UInt8) (p : Position) :
    Leaves (readStringBytes gathered text p) text := by
  fun_induction readStringBytes gathered text p with
  | case2 gathered text p => exact (leaves_decodeBytes _ _).cons 34
  | case4 gathered b text p _ _ _ ih => exact ih.cons b
  -- an escape takes two bytes, or six, or twelve
  | case6 =>
    rename_i ih
    exact ih.mono ⟨[_, _], rfl⟩
  | case10 =>
    rename_i ih
    exact ih.mono ⟨[_, _, _, _, _, _], rfl⟩
  | case17 =>
    rename_i ih
    exact ih.mono ⟨[_, _, _, _, _, _, _, _, _, _, _, _], rfl⟩
  | _ => exact leaves_error _

/-- A string is read behind its opening quote. -/
theorem leaves_readString (c : Cursor) : Leaves (readString c) c.rest :=
  leaves_readStringBytes [] c.rest c.position

end Json

end JsonShape
