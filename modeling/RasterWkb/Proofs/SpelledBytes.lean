import RasterWkb.Settings.Decoding
import Mathlib.Data.List.DropRight

/-!
# Texts that spell bytes

Two digits spell a byte, each in either case. Blanks around the digits do not count, nor
does one escape between the blanks in front and the digits. Every text has exactly one
part that has to consist of digits, and that part decides: either it spells bytes, and the
text is decoded as they are, or the text is refused and the first of three flaws is named.

The relations below say what blanks, escapes, digits and flaws are without the functions
that look for them.
-/
namespace RasterWkb

namespace Blank
variable {text core : List Char} {c : Char}

/-- The code points of the characters that may surround a text. -/
def codes : List Nat :=
  List.range' 0x09 5 ++ List.range' 0x1C 5 ++ [0x85, 0xA0, 0x1680] ++ List.range' 0x2000 11 ++
    [0x2028, 0x2029, 0x202F, 0x205F, 0x3000]

def IsBlank (c : Char) : Prop :=
  c.toNat ∈ codes

instance : DecidablePred IsBlank := fun c => inferInstanceAs (Decidable (c.toNat ∈ codes))

theorem isSpaceOrSeparator_iff : isSpaceOrSeparator c = true ↔ IsBlank c := by
  simp only [IsBlank, codes, List.mem_append, List.mem_range'_1, List.mem_cons, List.not_mem_nil,
    isSpaceOrSeparator, isSpace, Bool.or_eq_true, Bool.and_eq_true, decide_eq_true_eq, beq_iff_eq,
    or_false]
  constructor <;> intro h <;> omega

/-- The core is what is left of the text without the blanks at its two ends. -/
structure Trimmed (text core : List Char) : Prop where
  around : ∃ front back, text = front ++ core ++ back ∧ (∀ c ∈ front, IsBlank c) ∧
    ∀ c ∈ back, IsBlank c
  head : ∀ c cs, core = c :: cs → ¬IsBlank c
  last : ∀ cs c, core = cs ++ [c] → ¬IsBlank c

theorem Trimmed.trim_eq (h : Trimmed text core) : trim isSpaceOrSeparator text = core := by
  obtain ⟨⟨front,back,rfl,hfront,hback⟩,hhead,hlast⟩ := h
  simp only [← isSpaceOrSeparator_iff] at hfront hback hhead hlast
  have hkept : core.reverse.dropWhile isSpaceOrSeparator = core.reverse := by
    cases core using List.reverseRecOn with
    | nil => rfl
    | append_singleton cs c =>
        rw [List.reverse_append, List.reverse_singleton, List.singleton_append,
          List.dropWhile_cons_of_neg (hlast cs c rfl)]
  rw [trim, List.append_assoc, List.dropWhile_append_of_pos hfront]
  cases core with
  | nil =>
      rw [List.nil_append, List.dropWhile_eq_nil_iff.mpr hback]
      rfl
  | cons c cs =>
      have hback' : ∀ b ∈ back.reverse, isSpaceOrSeparator b = true := fun b hb =>
        hback b (List.mem_reverse.mp hb)
      rw [List.cons_append, List.dropWhile_cons_of_neg (hhead c cs rfl), ← List.cons_append,
        List.reverse_append, List.dropWhile_append_of_pos hback', hkept, List.reverse_reverse]

theorem trimmed_trim (text : List Char) : Trimmed text (trim isSpaceOrSeparator text) := by
  have hbehind : (text.dropWhile isSpaceOrSeparator).rdropWhile isSpaceOrSeparator =
      trim isSpaceOrSeparator text := rfl
  constructor
  · refine ⟨text.takeWhile isSpaceOrSeparator,
      (text.dropWhile isSpaceOrSeparator).rtakeWhile isSpaceOrSeparator,?_,?_,?_⟩
    · rw [← hbehind, List.append_assoc, List.rdropWhile_append_rtakeWhile,
        List.takeWhile_append_dropWhile]
    · exact fun c hc => isSpaceOrSeparator_iff.mp (List.mem_takeWhile_imp hc)
    · exact fun c hc => isSpaceOrSeparator_iff.mp (List.mem_rtakeWhile_imp hc)
  · intro c cs hcore
    -- What the back is taken off from starts with the same character.
    obtain ⟨back,hback⟩ := List.rdropWhile_prefix isSpaceOrSeparator
      (l := text.dropWhile isSpaceOrSeparator)
    rw [hbehind, hcore, List.cons_append] at hback
    have hhead := List.head?_dropWhile_not isSpaceOrSeparator text
    rw [← hback, List.head?_cons] at hhead
    rw [← isSpaceOrSeparator_iff]
    exact Bool.eq_false_iff.mp hhead
  · intro cs c hcore
    have hne : (text.dropWhile isSpaceOrSeparator).rdropWhile isSpaceOrSeparator ≠ [] := by
      rw [hbehind, hcore]
      exact List.append_ne_nil_of_right_ne_nil cs (List.cons_ne_nil c [])
    have hlast := List.rdropWhile_last_not isSpaceOrSeparator _ hne
    simp only [hbehind, hcore, List.getLast_append_singleton] at hlast
    rw [← isSpaceOrSeparator_iff]
    exact hlast

end Blank

namespace HexText
variable {text core cs : List Char} {c : Char} {n : Nat} {bytes : List UInt8}

/-! ### The part that has to consist of digits -/

/-- What may stand once in front of the digits. -/
def escapes : List (List Char) :=
  [['\\', 'x'], ['\\', 'X']]

/-- The core is the text without one escape in front, if there is one. -/
inductive Unescaped : List Char → List Char → Prop
  | escaped {escape : List Char} (h : escape ∈ escapes) (core : List Char) :
      Unescaped (escape ++ core) core
  | bare {core : List Char} (h : ∀ escape ∈ escapes, ¬escape <+: core) : Unescaped core core

theorem mem_escapes {escape : List Char} :
    escape ∈ escapes ↔ escape = ['\\', 'x'] ∨ escape = ['\\', 'X'] := by
  simp [escapes]

theorem unescape_escaped {escape : List Char} (h : escape ∈ escapes) (core : List Char) :
    unescape (escape ++ core) = core := by
  rcases mem_escapes.mp h with rfl | rfl <;> rfl

theorem unescape_bare (h : ∀ escape ∈ escapes, ¬escape <+: core) : unescape core = core := by
  unfold unescape
  split
  · exact absurd ⟨_,rfl⟩ (h ['\\', 'x'] (by decide))
  · exact absurd ⟨_,rfl⟩ (h ['\\', 'X'] (by decide))
  · rfl

theorem unescaped_iff : Unescaped text core ↔ unescape text = core := by
  constructor
  · intro h
    cases h with
    | escaped hescape => exact unescape_escaped hescape core
    | bare hbare => exact unescape_bare hbare
  · rintro rfl
    by_cases h : ∃ escape ∈ escapes, escape <+: text
    · obtain ⟨escape,hescape,core,rfl⟩ := h
      rw [unescape_escaped hescape]
      exact .escaped hescape core
    · have hbare : ∀ escape ∈ escapes, ¬escape <+: text := fun escape hescape hstart =>
        h ⟨escape,hescape,hstart⟩
      rw [unescape_bare hbare]
      exact .bare hbare

/-- The core is what is left of the text without blanks at its ends and one escape. -/
def Bare (text core : List Char) : Prop :=
  ∃ trimmed, Blank.Trimmed text trimmed ∧ Unescaped trimmed core

/-- Every text has one such part. -/
theorem bare_iff {text : String} : Bare text.toList core ↔ core = body text := by
  constructor
  · rintro ⟨trimmed,htrimmed,hcore⟩
    rw [body, htrimmed.trim_eq, unescaped_iff.mp hcore]
  · rintro rfl
    exact ⟨_,Blank.trimmed_trim _,unescaped_iff.mpr rfl⟩

/-! ### Digits -/

def lowerDigits : List Char :=
  ['0', '1', '2', '3', '4', '5', '6', '7', '8', '9', 'a', 'b', 'c', 'd', 'e', 'f']

def upperDigits : List Char :=
  ['0', '1', '2', '3', '4', '5', '6', '7', '8', '9', 'A', 'B', 'C', 'D', 'E', 'F']

/-- The character is the digit of the number, in either case. -/
def IsDigit (c : Char) (n : Nat) : Prop :=
  lowerDigits[n]? = some c ∨ upperDigits[n]? = some c

/-- What holds of the digits in both cases holds of every digit. -/
theorem IsDigit.elim {p : Char → Nat → Prop} (h : IsDigit c n)
    (hall : ∀ d ∈ lowerDigits.zipIdx ++ upperDigits.zipIdx, p d.1 d.2) : p c n := by
  apply hall (c, n)
  rw [List.mem_append, List.mk_mem_zipIdx_iff_getElem?, List.mk_mem_zipIdx_iff_getElem?]
  exact h

theorem digit?_eq_some_iff : digit? c = some n ↔ IsDigit c n := by
  constructor
  · intro h
    have hsmall : c.toNat < 128 := by
      unfold digit? at h
      split at h
      · next hc => exact Nat.lt_of_le_of_lt hc.2 (by decide)
      · split at h
        · next hc => exact Nat.lt_of_le_of_lt hc.2 (by decide)
        · split at h
          · next hc => exact Nat.lt_of_le_of_lt hc.2 (by decide)
          · cases h
    have hall : ∀ k < 128, ∀ n ∈ digit? (Char.ofNat k),
        lowerDigits[n]? = some (Char.ofNat k) ∨ upperDigits[n]? = some (Char.ofNat k) := by
      decide
    have hdigit := hall c.toNat hsmall n
    rw [Char.ofNat_toNat] at hdigit
    exact hdigit h
  · intro h
    exact h.elim (p := fun c n => digit? c = some n) (by decide)

theorem IsDigit.ascii (h : IsDigit c n) : c.toNat < 128 :=
  h.elim (p := fun c _ => c.toNat < 128) (by decide)

/-- No digit is a blank or starts an escape. -/
theorem IsDigit.ordinary (h : IsDigit c n) : ¬Blank.IsBlank c ∧ c ≠ '\\' :=
  h.elim (p := fun c _ => ¬Blank.IsBlank c ∧ c ≠ '\\') (by decide)

/-- The digits denote the bytes, two of them each. -/
inductive Denotes : List Char → List UInt8 → Prop
  | nil : Denotes [] []
  | cons {high low : Char} {h l : Nat} {digits : List Char} {bytes : List UInt8}
      (hhigh : IsDigit high h) (hlow : IsDigit low l) (rest : Denotes digits bytes) :
      Denotes (high :: low :: digits) (UInt8.ofNat (16 * h + l) :: bytes)

/-- The first flaw of what is no text of digits, and how it is named. -/
inductive FirstFlaw (core : List Char) : HexFault → String → Prop
  | nonAscii (h : ∃ c ∈ core, 128 ≤ c.toNat) :
      FirstFlaw core .nonAscii "string argument should contain only ASCII characters"
  | oddLength (hascii : ∀ c ∈ core, c.toNat < 128) (h : core.length % 2 = 1) :
      FirstFlaw core .oddLength "Odd-length string"
  | nonDigit (hascii : ∀ c ∈ core, c.toNat < 128) (heven : core.length % 2 = 0)
      (h : ∃ c ∈ core, ∀ n, ¬IsDigit c n) :
      FirstFlaw core .nonDigit "Non-hexadecimal digit found"

theorem FirstFlaw.message_eq {fault : HexFault} {words : String} (h : FirstFlaw core fault words) :
    fault.message = words := by
  cases h <;> rfl

/-- What the reader makes of the part that has to consist of digits. The cases exclude one
another. -/
inductive Spelling (core : List Char) : Except HexFault (List UInt8) → Prop
  | denoted {bytes : List UInt8} (heven : core.length % 2 = 0)
      (hdigits : ∀ c ∈ core, ∃ n, IsDigit c n) (hbytes : Denotes core bytes) :
      Spelling core (.ok bytes)
  | flawed {fault : HexFault} {words : String} (hflaw : FirstFlaw core fault words) :
      Spelling core (.error fault)

/-- Digits are read two by two, up to the first pair that is none. -/
theorem digits_cases (heven : cs.length % 2 = 0) :
    (∃ bytes, digits cs = .ok bytes ∧ Denotes cs bytes ∧ ∀ c ∈ cs, ∃ n, IsDigit c n) ∨
      (digits cs = .error .nonDigit ∧ ∃ c ∈ cs, ∀ n, ¬IsDigit c n) := by
  fun_induction digits cs with
  | case1 => exact .inl ⟨[],rfl,.nil,fun c hc => absurd hc List.not_mem_nil⟩
  | case2 c => cases heven
  | case3 high low rest h l hlow hhigh ih =>
      rw [digit?_eq_some_iff] at hhigh hlow
      rw [List.length_cons, List.length_cons] at heven
      rcases ih (by omega) with ⟨bytes,hok,hbytes,hdigits⟩ | ⟨herr,c,hc,hnone⟩
      · refine .inl ⟨_,by rw [hok]; rfl,.cons hhigh hlow hbytes,?_⟩
        exact List.forall_mem_cons.mpr ⟨⟨h,hhigh⟩,List.forall_mem_cons.mpr ⟨⟨l,hlow⟩,hdigits⟩⟩
      · refine .inr ⟨by rw [herr]; rfl,c,?_,hnone⟩
        exact List.mem_cons_of_mem high (List.mem_cons_of_mem low hc)
  | case4 high low rest hpair =>
      refine .inr ⟨rfl,?_⟩
      cases hhigh : digit? high with
      | none =>
          refine ⟨high,List.mem_cons_self,fun n hn => ?_⟩
          rw [digit?_eq_some_iff.mpr hn] at hhigh
          cases hhigh
      | some h =>
          refine ⟨low,List.mem_cons_of_mem high List.mem_cons_self,fun n hn => ?_⟩
          exact hpair h n hhigh (digit?_eq_some_iff.mpr hn)

theorem spelling (text : String) : Spelling (body text) (decode text) := by
  have hdecode : decode text =
      if (body text).any (128 ≤ ·.toNat) then .error .nonAscii
      else if (body text).length % 2 = 1 then .error .oddLength
      else digits (body text) := rfl
  rw [hdecode]
  generalize body text = core
  by_cases hany : core.any (128 ≤ ·.toNat) = true
  · rw [if_pos hany]
    rw [List.any_eq_true] at hany
    obtain ⟨c,hc,hlarge⟩ := hany
    exact .flawed (.nonAscii ⟨c,hc,of_decide_eq_true hlarge⟩)
  · rw [if_neg hany]
    have hascii : ∀ c ∈ core, c.toNat < 128 := by
      intro c hc
      by_contra hlarge
      exact hany (List.any_eq_true.mpr ⟨c,hc,decide_eq_true (Nat.not_lt.mp hlarge)⟩)
    by_cases hodd : core.length % 2 = 1
    · rw [if_pos hodd]
      exact .flawed (.oddLength hascii hodd)
    · rw [if_neg hodd]
      have heven : core.length % 2 = 0 := by omega
      rcases digits_cases heven with ⟨bytes,hok,hbytes,hdigits⟩ | ⟨herr,hnone⟩
      · rw [hok]
        exact .denoted heven hdigits hbytes
      · rw [herr]
        exact .flawed (.nonDigit hascii heven hnone)

namespace Denotes

theorem digits_eq (h : Denotes cs bytes) : digits cs = .ok bytes := by
  induction h with
  | nil => rfl
  | cons hhigh hlow _ ih =>
      rw [digits, digit?_eq_some_iff.mpr hhigh, digit?_eq_some_iff.mpr hlow]
      simp only [ih, Except.map]

theorem even (h : Denotes cs bytes) : cs.length % 2 = 0 := by
  induction h with
  | nil => rfl
  | cons _ _ _ ih =>
      rw [List.length_cons, List.length_cons]
      omega

theorem isDigit (h : Denotes cs bytes) : ∀ c ∈ cs, ∃ n, IsDigit c n := by
  induction h with
  | nil => exact fun c hc => absurd hc List.not_mem_nil
  | cons hhigh hlow _ ih =>
      exact List.forall_mem_cons.mpr ⟨⟨_,hhigh⟩,List.forall_mem_cons.mpr ⟨⟨_,hlow⟩,ih⟩⟩

end Denotes

theorem FirstFlaw.not_denotes {fault : HexFault} {words : String} (h : FirstFlaw core fault words) :
    ¬Denotes core bytes := by
  intro hbytes
  cases h with
  | nonAscii h =>
      obtain ⟨c,hc,hlarge⟩ := h
      obtain ⟨n,hn⟩ := hbytes.isDigit c hc
      exact absurd hn.ascii (Nat.not_lt.mpr hlarge)
  | oddLength hascii h =>
      rw [hbytes.even] at h
      cases h
  | nonDigit hascii heven h =>
      obtain ⟨c,hc,hnone⟩ := h
      obtain ⟨n,hn⟩ := hbytes.isDigit c hc
      exact hnone n hn

theorem decode_of_denotes {text : String} (h : Denotes (body text) bytes) :
    decode text = .ok bytes := by
  have hs := spelling text
  generalize decode text = read at hs
  cases hs with
  | denoted heven hdigits hread =>
      have heq := hread.digits_eq
      rw [h.digits_eq] at heq
      exact heq.symm
  | flawed hflaw => exact absurd h hflaw.not_denotes

/-! ### Digits in any case -/

/-- The case of a digit does not matter. -/
theorem digit?_toLower (c : Char) : digit? c.toLower = digit? c := by
  by_cases hsmall : c.toNat < 128
  · have hall : ∀ k < 128, digit? (Char.ofNat k).toLower = digit? (Char.ofNat k) := by decide
    have hc := hall c.toNat hsmall
    rwa [Char.ofNat_toNat] at hc
  · have hsame : c.toLower = c :=
      dif_neg fun hupper => hsmall (Nat.lt_of_le_of_lt hupper.2 (by decide))
    rw [hsame]

/-- The digits of bytes denote them, whichever of the letters are capitals. -/
theorem denotes_of_toLower (h : cs.map Char.toLower = encode bytes) : Denotes cs bytes := by
  induction bytes generalizing cs with
  | nil =>
      rw [List.map_eq_nil_iff.mp h]
      exact .nil
  | cons b bytes ih =>
      have hb : b.toNat < 256 := b.toNat_lt
      have hsplit : encode (b :: bytes) =
          lowerDigit (b.toNat / 16) :: lowerDigit (b.toNat % 16) :: encode bytes := rfl
      rw [hsplit] at h
      obtain ⟨high,rest,rfl,hhigh,hrest⟩ := List.map_eq_cons_iff.mp h
      obtain ⟨low,digits,rfl,hlow,hdigits⟩ := List.map_eq_cons_iff.mp hrest
      have hdigit : ∀ c n, n < 16 → c.toLower = lowerDigit n → IsDigit c n := by
        intro c n hn hc
        rw [← digit?_eq_some_iff, ← digit?_toLower, hc, digit?_lowerDigit hn]
      have hbyte : UInt8.ofNat (16 * (b.toNat / 16) + b.toNat % 16) = b := by
        rw [Nat.div_add_mod, UInt8.ofNat_toNat]
      rw [← hbyte]
      exact .cons (hdigit high _ (by omega) hhigh) (hdigit low _ (Nat.mod_lt _ (by decide)) hlow)
        (ih hdigits)

/-! ### Texts put together from their parts -/

section Parts
variable {front escape back : List Char}

theorem body_escaped (hfront : ∀ c ∈ front, Blank.IsBlank c)
    (hback : ∀ c ∈ back, Blank.IsBlank c) (hescape : escape ∈ escapes)
    (hlast : ∀ cs c, core = cs ++ [c] → ¬Blank.IsBlank c) :
    body (String.ofList (front ++ escape ++ core ++ back)) = core := by
  symm
  rw [← bare_iff, String.toList_ofList]
  refine ⟨escape ++ core,⟨⟨front,back,by rw [List.append_assoc front],hfront,hback⟩,?_,?_⟩,
    .escaped hescape core⟩
  · intro c cs hc
    rcases mem_escapes.mp hescape with rfl | rfl <;> cases hc <;> decide
  · intro cs c hc
    cases core using List.reverseRecOn with
    | nil =>
        have hend := congrArg List.getLast? hc
        rw [List.append_nil, List.getLast?_concat] at hend
        rcases mem_escapes.mp hescape with rfl | rfl <;> cases hend <;> decide
    | append_singleton core d =>
        rw [← List.append_assoc] at hc
        have hd : d = c := List.singleton_inj.mp (List.append_inj_right' hc rfl)
        exact hd ▸ hlast core d rfl

theorem body_unescaped (hfront : ∀ c ∈ front, Blank.IsBlank c)
    (hback : ∀ c ∈ back, Blank.IsBlank c)
    (hdigits : ∀ c ∈ cs, ∃ n, IsDigit c n) :
    body (String.ofList (front ++ cs ++ back)) = cs := by
  symm
  rw [← bare_iff, String.toList_ofList]
  have hordinary : ∀ c ∈ cs, ¬Blank.IsBlank c ∧ c ≠ '\\' := by
    intro c hc
    obtain ⟨n,hn⟩ := hdigits c hc
    exact hn.ordinary
  refine ⟨cs,⟨⟨front,back,rfl,hfront,hback⟩,?_,?_⟩,.bare ?_⟩
  · rintro c rest rfl
    exact (hordinary c List.mem_cons_self).1
  · rintro rest c rfl
    exact (hordinary c (List.mem_append_right rest List.mem_cons_self)).1
  · rintro escape hescape ⟨rest,rfl⟩
    have hstart : '\\' ∈ escape ++ rest := by
      rcases mem_escapes.mp hescape with rfl | rfl <;> exact List.mem_cons_self
    exact (hordinary _ hstart).2 rfl

theorem decode_of_toLower (hfront : ∀ c ∈ front, Blank.IsBlank c)
    (hback : ∀ c ∈ back, Blank.IsBlank c) (hescape : escape ∈ [] :: escapes)
    (hdigits : cs.map Char.toLower = encode bytes) :
    decode (String.ofList (front ++ escape ++ cs ++ back)) = .ok bytes := by
  have hbytes := denotes_of_toLower hdigits
  apply decode_of_denotes
  rcases List.mem_cons.mp hescape with rfl | hescape
  · rw [List.append_nil, body_unescaped hfront hback hbytes.isDigit]
    exact hbytes
  · rw [body_escaped hfront hback hescape]
    · exact hbytes
    · rintro rest c rfl
      obtain ⟨n,hn⟩ := hbytes.isDigit c (List.mem_append_right rest List.mem_cons_self)
      exact hn.ordinary.1

/-- What stands behind an escape does not start with a blank or an escape. -/
theorem exists_flaw (hfront : ∀ c ∈ front, Blank.IsBlank c)
    (hback : ∀ c ∈ back, Blank.IsBlank c) (hescape : escape ∈ escapes)
    (hlast : ∀ cs c, core = cs ++ [c] → ¬Blank.IsBlank c)
    (hstart : (∃ c cs, core = c :: cs ∧ Blank.IsBlank c) ∨
      ∃ second ∈ escapes, second <+: core) :
    ∃ fault, decode (String.ofList (front ++ escape ++ core ++ back)) = .error fault := by
  have hfirst : ∃ c ∈ core, ∀ n, ¬IsDigit c n := by
    rcases hstart with ⟨c,cs,rfl,hblank⟩ | ⟨second,hsecond,rest,rfl⟩
    · refine ⟨c,List.mem_cons_self,fun n hn => ?_⟩
      exact hn.ordinary.1 hblank
    · refine ⟨'\\',?_,fun n hn => hn.ordinary.2 rfl⟩
      rcases mem_escapes.mp hsecond with rfl | rfl <;> exact List.mem_cons_self
  have hs := spelling (String.ofList (front ++ escape ++ core ++ back))
  rw [body_escaped hfront hback hescape hlast] at hs
  generalize decode (String.ofList (front ++ escape ++ core ++ back)) = read at hs ⊢
  cases hs with
  | denoted heven hdigits hbytes =>
      obtain ⟨c,hc,hnone⟩ := hfirst
      obtain ⟨n,hn⟩ := hdigits c hc
      exact absurd hn (hnone n)
  | flawed hflaw => exact ⟨_,rfl⟩

end Parts

end HexText

/-! ### Decoding texts -/

namespace SettingsStore
open HexText
variable {s : SettingsStore} {given : Option Settings} {text : String}

/-- The text was refused for the fault: nothing was reported, and the store was left alone. -/
def Refuses (s : SettingsStore) (fault : HexFault)
    (answer : Except (List Settings.Problem) (Run Raster) × SettingsStore) : Prop :=
  ∃ run, answer = (.ok run, s) ∧ run.result = .error (.decode (.malformedHex fault)) ∧
    run.trace.lines = []

/-- What decoding a text comes to, by the part of it that has to consist of digits. The cases
exclude one another. -/
inductive TextDecoded (s : SettingsStore) (given : Option Settings) (core : List Char)
    (answer : Except (List Settings.Problem) (Run Raster) × SettingsStore) : Prop
  | denoted {bytes : List UInt8} (heven : core.length % 2 = 0)
      (hdigits : ∀ c ∈ core, ∃ n, IsDigit c n) (hbytes : Denotes core bytes)
      (hanswer : answer = s.decode given bytes)
  | malformed {fault : HexFault} {words : String} (hflaw : FirstFlaw core fault words)
      (hmessage : (DecodeError.malformedHex fault).message = "invalid raster hex: " ++ words)
      (hanswer : s.Refuses fault answer)

theorem decodeText_of_ok {bytes : List UInt8} (h : HexText.decode text = .ok bytes) :
    s.decodeText given text = s.decode given bytes := by
  rw [decodeText, h]

theorem decodeText_of_error {fault : HexFault} (h : HexText.decode text = .error fault) :
    s.Refuses fault (s.decodeText given text) := by
  rw [decodeText, h]
  exact ⟨_,rfl,rfl,rfl⟩

theorem textDecoded (s : SettingsStore) (given : Option Settings) (text : String) :
    s.TextDecoded given (body text) (s.decodeText given text) := by
  have hs := spelling text
  generalize hread : HexText.decode text = read at hs
  cases hs with
  | denoted heven hdigits hbytes =>
      exact .denoted heven hdigits hbytes (decodeText_of_ok hread)
  | flawed hflaw =>
      refine .malformed hflaw ?_ (decodeText_of_error hread)
      rw [← hflaw.message_eq]
      rfl

/-- A text is decoded as the bytes that it spells, or refused for its first flaw. Neither the
case of the digits nor what stands around them counts, but nothing may stand between one escape
and the digits. -/
theorem decodeText_spelled (s : SettingsStore) (given : Option Settings) :
    (∀ text : String, ∃ core, (∀ other, Bare text.toList other ↔ other = core) ∧
      s.TextDecoded given core (s.decodeText given text)) ∧
    (∀ (bytes : List UInt8) (front escape digits back : List Char),
      (∀ c ∈ front, Blank.IsBlank c) →
      (∀ c ∈ back, Blank.IsBlank c) → escape ∈ [] :: escapes →
      digits.map Char.toLower = encode bytes →
        s.decodeText given (String.ofList (front ++ escape ++ digits ++ back)) =
          s.decode given bytes) ∧
    ∀ front escape behind back : List Char,
      (∀ c ∈ front, Blank.IsBlank c) →
      (∀ c ∈ back, Blank.IsBlank c) → escape ∈ escapes →
      (∀ cs c, behind = cs ++ [c] → ¬Blank.IsBlank c) →
      ((∃ c cs, behind = c :: cs ∧ Blank.IsBlank c) ∨
        ∃ second ∈ escapes, second <+: behind) →
        ∃ fault, s.Refuses fault
          (s.decodeText given (String.ofList (front ++ escape ++ behind ++ back))) := by
  refine ⟨fun text => ?_,?_,?_⟩
  · exact ⟨body text,fun _ => bare_iff,textDecoded s given text⟩
  · intro bytes front escape digits back hfront hback hescape hdigits
    exact decodeText_of_ok (decode_of_toLower hfront hback hescape hdigits)
  · intro front escape behind back hfront hback hescape hlast hstart
    obtain ⟨fault,hfault⟩ := exists_flaw hfront hback hescape hlast hstart
    exact ⟨fault,decodeText_of_error hfault⟩

/-- Digits of both cases between blanks, one of them beyond the ASCII characters, and a blank
and a second escape behind the first. -/
theorem decodeText_ideographicSpace :
    let s := SettingsStore.start []
    s.decodeText none (String.ofList
        (['\u3000', ' '] ++ ['\\', 'X'] ++ ['4', 'a', 'F', 'f'] ++ ['\n'])) =
      s.decode none [0x4A, 0xFF] ∧
    (∃ fault, s.Refuses fault (s.decodeText none
      (String.ofList ([] ++ ['\\', 'x'] ++ [' ', '4', 'a'] ++ ['\t'])))) ∧
    ∃ fault, s.Refuses fault (s.decodeText none
      (String.ofList ([] ++ ['\\', 'x'] ++ ['\\', 'x', '4', 'a'] ++ []))) := by
  intro s
  have hlast : ∀ behind ∈ [[' ', '4', 'a'], ['\\', 'x', '4', 'a']], ∀ (cs : List Char) (c : Char),
      behind = cs ++ [c] → ¬Blank.IsBlank c := by
    intro behind hbehind cs c hc
    have hend := congrArg List.getLast? hc
    rw [List.getLast?_concat] at hend
    simp only [List.mem_cons, List.not_mem_nil, or_false] at hbehind
    rcases hbehind with rfl | rfl <;> cases hend <;> decide
  have hnone : ∀ c ∈ ([] : List Char), Blank.IsBlank c := List.forall_mem_nil _
  have hone : ∀ c : Char, Blank.IsBlank c → ∀ d ∈ [c], Blank.IsBlank d := fun c =>
    List.forall_mem_singleton.mpr
  obtain ⟨-,haccepts,hrefuses⟩ := decodeText_spelled s none
  refine ⟨?_,?_,?_⟩
  · exact haccepts [0x4A, 0xFF] ['\u3000', ' '] ['\\', 'X'] ['4', 'a', 'F', 'f'] ['\n']
      (List.forall_mem_cons.mpr ⟨by decide,hone ' ' (by decide)⟩) (hone '\n' (by decide))
      (by decide) (by decide)
  · exact hrefuses [] ['\\', 'x'] [' ', '4', 'a'] ['\t'] hnone (hone '\t' (by decide)) (by decide)
      (hlast _ (by decide)) (.inl ⟨' ',['4', 'a'],rfl,by decide⟩)
  · exact hrefuses [] ['\\', 'x'] ['\\', 'x', '4', 'a'] [] hnone hnone (by decide)
      (hlast _ (by decide)) (.inr ⟨['\\', 'x'],by decide,['4', 'a'],rfl⟩)

end SettingsStore

end RasterWkb
