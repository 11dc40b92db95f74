import LoxCalc.Source.Segment

/-!
# The lexical grammar

`Lexical` says what the segments of each class look like, without saying how
they are found.  A segment is the **longest** one at the front of a text if no
segment of any class covers more of the text, and a text is **cut** properly
if it is divided into longest segments from the front to the end.

* `Lexical.first_covers`: whatever fits the grammar at the front of a text is
  covered by the first segment, and is of the same class if it covers as much;
* `longest_first`: the first segment is the longest one;
* `cut_iff`: a text is cut properly in exactly one way, into its `segments`.
-/

namespace LoxCalc

/-- The segments of each class, as texts followed by the rest of the source.
The rest matters only to a string without a closing quote, which runs to the
end. -/
inductive Lexical : Segment.Class → List Char → List Char → Prop
  | blank {c : Char} {rest : List Char} (hc : c = ' ' ∨ c = '\r' ∨ c = '\t') :
      Lexical .blank [c] rest
  | newline {rest : List Char} : Lexical .newline ['\n'] rest
  | comment {body rest : List Char} (hbody : '\n' ∉ body) :
      Lexical .comment ('/' :: '/' :: body) rest
  | string {body rest : List Char} (hbody : '\x22' ∉ body) :
      Lexical .string ('\x22' :: body ++ ['\x22']) rest
  | openString {body : List Char} (hbody : '\x22' ∉ body) :
      Lexical .openString ('\x22' :: body) []
  | whole {ds rest : List Char} (hne : ds ≠ []) (hds : ∀ d ∈ ds, d.isDigit = true) :
      Lexical .number ds rest
  | fraction {ds fs rest : List Char} (hne : ds ≠ []) (hds : ∀ d ∈ ds, d.isDigit = true)
      (hfne : fs ≠ []) (hfs : ∀ d ∈ fs, d.isDigit = true) :
      Lexical .number (ds ++ '.' :: fs) rest
  | word {c : Char} {cs rest : List Char} (hc : c.isAlpha = true ∨ c = '_')
      (hcs : ∀ d ∈ cs, d.isAlpha = true ∨ d = '_' ∨ d.isDigit = true) :
      Lexical .word (c :: cs) rest
  | symbol (s : Symbol) {rest : List Char} : Lexical (.symbol s) s.text.toList rest
  | stray {c : Char} {rest : List Char}
      (hblank : c ≠ ' ' ∧ c ≠ '\r' ∧ c ≠ '\t' ∧ c ≠ '\n') (hquote : c ≠ '\x22')
      (hdigit : c.isDigit = false) (hletter : c.isAlpha = false ∧ c ≠ '_')
      (hsymbol : ∀ s : Symbol, s.text.toList ≠ [c]) : Lexical .stray [c] rest

/-- The segment is the longest one at the front of its text followed by `rest`. -/
structure Longest (s : Segment) (rest : List Char) : Prop where
  lexical : Lexical s.cls s.text rest
  longest : ∀ cls u v, u ++ v = s.text ++ rest → Lexical cls u v → u.length ≤ s.text.length

/-- The text is cut into longest segments from its front to its end. -/
inductive Cut : List Char → List Segment → Prop
  | nil : Cut [] []
  | cons {s : Segment} {rest : List Char} {pieces : List Segment} (hs : Longest s rest)
      (hrest : Cut rest pieces) : Cut (s.text ++ rest) (s :: pieces)

/-! ## Runs of characters of one class -/

/-- Characters of a class at the front of a text are taken. -/
theorem length_le_takeWhile {p : Char → Bool} {u : List Char} (hu : ∀ c ∈ u, p c = true)
    (v : List Char) : u.length ≤ ((u ++ v).takeWhile p).length := by
  rw [List.takeWhile_append_of_pos hu, List.length_append]
  exact Nat.le_add_right _ _

/-- A text of characters of a class is taken as a whole. -/
theorem takeWhile_eq_self {p : Char → Bool} {u : List Char} (hu : ∀ c ∈ u, p c = true) :
    u.takeWhile p = u := by
  have h : (u ++ []).takeWhile p = u ++ [].takeWhile p := List.takeWhile_append_of_pos hu
  simpa using h

/-- Nothing is left of a text of characters of a class. -/
theorem dropWhile_eq_nil {p : Char → Bool} {u : List Char} (hu : ∀ c ∈ u, p c = true) :
    u.dropWhile p = [] := by
  have h : (u ++ []).dropWhile p = [].dropWhile p := List.dropWhile_append_of_pos hu
  simpa using h

/-- A run of characters of a class ends before the first one that is not. -/
theorem takeWhile_append_cons {p : Char → Bool} {u v : List Char} {c : Char}
    (hu : ∀ d ∈ u, p d = true) (hc : p c = false) : (u ++ c :: v).takeWhile p = u := by
  rw [List.takeWhile_append_of_pos hu, List.takeWhile_cons, hc]
  simp

/-- What follows a run of characters of a class starts with one that is not. -/
theorem dropWhile_append_cons {p : Char → Bool} {u v : List Char} {c : Char}
    (hu : ∀ d ∈ u, p d = true) (hc : p c = false) : (u ++ c :: v).dropWhile p = c :: v := by
  rw [List.dropWhile_append_of_pos hu, List.dropWhile_cons, hc]
  simp

/-- A run of characters of a class ends where one stands that is not of the
class. -/
theorem takeWhile_append_of_head {p : Char → Bool} {u rest : List Char}
    (hu : ∀ c ∈ u, p c = true) (hrest : ∀ c ∈ rest.head?, p c = false) :
    (u ++ rest).takeWhile p = u := by
  cases rest with
  | nil => rw [List.append_nil, takeWhile_eq_self hu]
  | cons c rest => exact takeWhile_append_cons hu (hrest c rfl)

/-- What follows such a run is what is left. -/
theorem dropWhile_append_of_head {p : Char → Bool} {u rest : List Char}
    (hu : ∀ c ∈ u, p c = true) (hrest : ∀ c ∈ rest.head?, p c = false) :
    (u ++ rest).dropWhile p = rest := by
  cases rest with
  | nil => rw [List.append_nil, dropWhile_eq_nil hu]
  | cons c rest => exact dropWhile_append_cons hu (hrest c rfl)

/-- Two runs at the front of one text are the same. -/
theorem run_append_inj {p : Char → Bool} {u u' rest rest' : List Char}
    (hu : ∀ c ∈ u, p c = true) (hu' : ∀ c ∈ u', p c = true)
    (hrest : ∀ c ∈ rest.head?, p c = false) (hrest' : ∀ c ∈ rest'.head?, p c = false)
    (h : u ++ rest = u' ++ rest') : u = u' ∧ rest = rest' := by
  have hrun : u = u' := by
    rw [← takeWhile_append_of_head hu hrest, h, takeWhile_append_of_head hu' hrest']
  subst hrun
  exact ⟨rfl, List.append_cancel_left h⟩

/-- Two runs that the same character ends are the same. -/
theorem append_cons_inj {d : Char} {u u' rest rest' : List Char} (hu : d ∉ u) (hu' : d ∉ u')
    (h : u ++ d :: rest = u' ++ d :: rest') : u = u' ∧ rest = rest' := by
  have hall : ∀ {v : List Char}, d ∉ v → ∀ c ∈ v, (c != d) = true := by
    intro v hv c hc
    rw [bne_iff_ne]
    rintro rfl
    exact hv hc
  have hend : ∀ v : List Char, ∀ c ∈ (d :: v).head?, (c != d) = false := by
    intro v c hc
    obtain rfl := Option.mem_some.mp hc
    exact bne_self_eq_false d
  obtain ⟨hrun, hrest⟩ := run_append_inj (hall hu) (hall hu') (hend rest) (hend rest') h
  exact ⟨hrun, (List.cons.inj hrest).2⟩

/-! ## Characters -/

/-- A digit differs from every character that is none. -/
theorem ne_of_isDigit {c d : Char} (hc : c.isDigit = true) (hd : d.isDigit = false) : c ≠ d := by
  rintro rfl
  rw [hc] at hd
  cases hd

/-- The code of a digit lies between those of `0` and `9`. -/
theorem toNat_of_isDigit {c : Char} (hc : c.isDigit = true) : 48 ≤ c.toNat ∧ c.toNat ≤ 57 := by
  simp only [Char.isDigit, Bool.and_eq_true, decide_eq_true_eq, ge_iff_le,
    UInt32.le_iff_toNat_le] at hc
  exact hc

/-- The code of a letter lies between those of `A` and `z`. -/
theorem toNat_of_isAlpha {c : Char} (hc : c.isAlpha = true) : 65 ≤ c.toNat ∧ c.toNat ≤ 122 := by
  rcases Bool.or_eq_true_iff.mp hc with hupper | hlower
  · have hrange : 'A'.val ≤ c.val ∧ c.val ≤ 'Z'.val := of_decide_eq_true hupper
    have hle : 65 ≤ c.toNat := UInt32.le_iff_toNat_le.mp hrange.1
    have hge : c.toNat ≤ 90 := UInt32.le_iff_toNat_le.mp hrange.2
    omega
  · obtain ⟨hfirst, hlast⟩ := Bool.and_eq_true_iff.mp hlower
    have hle : 97 ≤ c.toNat := UInt32.le_iff_toNat_le.mp (of_decide_eq_true hfirst)
    have hge : c.toNat ≤ 122 := UInt32.le_iff_toNat_le.mp (of_decide_eq_true hlast)
    omega

/-- A letter differs from every character that is none. -/
theorem ne_of_isWordStart {c d : Char} (hc : isWordStart c = true) (hd : isWordStart d = false) :
    c ≠ d := by
  rintro rfl
  rw [hc] at hd
  cases hd

/-- Letters and the underscore are not digits. -/
theorem isDigit_of_isWordStart {c : Char} (h : isWordStart c = true) : c.isDigit = false := by
  rw [Bool.eq_false_iff]
  intro hdigit
  have hcode := toNat_of_isDigit hdigit
  rcases Bool.or_eq_true_iff.mp h with halpha | hunderscore
  · have hletter := toNat_of_isAlpha halpha
    omega
  · obtain rfl : c = '_' := eq_of_beq hunderscore
    cases hdigit

/-- A line feed is a segment of its own, unless it is in a string. -/
theorem Lexical.newline_notMem {cls : Segment.Class} {text rest : List Char}
    (h : Lexical cls text rest) (hcls : cls ≠ .newline ∧ cls ≠ .string ∧ cls ≠ .openString) :
    '\n' ∉ text := by
  cases h with
  | blank hc => rcases hc with rfl | rfl | rfl <;> decide
  | newline => exact absurd rfl hcls.1
  | comment hbody => simpa using hbody
  | string hbody => exact absurd rfl hcls.2.1
  | openString hbody => exact absurd rfl hcls.2.2
  | whole hne hds => exact fun hmem => nomatch hds '\n' hmem
  | fraction hne hds hfne hfs =>
      intro hmem
      rcases List.mem_append.mp hmem with hmem | hmem
      · cases hds '\n' hmem
      · rcases List.mem_cons.mp hmem with hmem | hmem
        · cases hmem
        · cases hfs '\n' hmem
  | word hc hcs =>
      intro hmem
      rcases List.mem_cons.mp hmem with rfl | hmem
      · revert hc
        decide
      · have hchar := hcs '\n' hmem
        revert hchar
        decide
  | symbol s => cases s <;> decide
  | stray hblank hquote hdigit hletter hsymbol => simpa using hblank.2.2.2.symm

namespace Symbol

/-- Symbols are found under their spelling and under nothing else. -/
theorem ofChars?_eq_some_iff {cs : List Char} {s : Symbol} :
    ofChars? cs = some s ↔ s.text.toList = cs := by
  constructor
  · intro h
    have hfound := List.find?_some h
    exact eq_of_beq hfound
  · rintro rfl
    exact ofChars?_text s

/-- A symbol has one or two characters. -/
theorem toList_text (s : Symbol) :
    (∃ c, s.text.toList = [c]) ∨ ∃ c d, s.text.toList = [c, d] := by
  cases s <;> simp [text]

/-- The first character of a symbol is a symbol too. -/
theorem exists_text_eq_take (s : Symbol) : ∃ s' ∈ all, s'.text.toList = s.text.toList.take 1 := by
  cases s <;> decide

end Symbol

/-! ## The first segment, class by class -/

namespace Segment

theorem first_blank {c : Char} (hc : c = ' ' ∨ c = '\r' ∨ c = '\t') (cs : List Char) :
    first c cs = ⟨.blank, [c]⟩ := by
  rcases hc with rfl | rfl | rfl <;> rfl

theorem first_comment (cs : List Char) :
    first '/' ('/' :: cs) = ⟨.comment, '/' :: commentRest ('/' :: cs)⟩ := rfl

theorem first_quote (cs : List Char) :
    first '\x22' cs =
      if cs.any isQuote then ⟨.string, '\x22' :: stringBody cs ++ ['\x22']⟩
      else ⟨.openString, '\x22' :: cs⟩ := rfl

theorem first_number {c : Char} (hc : c.isDigit = true) (cs : List Char) :
    first c cs = ⟨.number, c :: numberRest cs⟩ := by
  have hblank : isLayoutBlank c = false := by
    simp [isLayoutBlank, ne_of_isDigit hc (d := ' ') rfl, ne_of_isDigit hc (d := '\r') rfl,
      ne_of_isDigit hc (d := '\t') rfl]
  have hquote : isQuote c = false := by
    simp [isQuote, ne_of_isDigit hc (d := '\x22') rfl]
  simp [first, hblank, hquote, hc, ne_of_isDigit hc (d := '\n') rfl,
    ne_of_isDigit hc (d := '/') rfl]

theorem first_word {c : Char} (hc : isWordStart c = true) (cs : List Char) :
    first c cs = ⟨.word, c :: cs.takeWhile isWordChar⟩ := by
  have hblank : isLayoutBlank c = false := by
    simp [isLayoutBlank, ne_of_isWordStart hc (d := ' ') rfl,
      ne_of_isWordStart hc (d := '\r') rfl, ne_of_isWordStart hc (d := '\t') rfl]
  have hquote : isQuote c = false := by
    simp [isQuote, ne_of_isWordStart hc (d := '\x22') rfl]
  simp [first, hblank, hquote, hc, isDigit_of_isWordStart hc,
    ne_of_isWordStart hc (d := '\n') rfl, ne_of_isWordStart hc (d := '/') rfl]

/-- A text that starts with a symbol starts with a comment or is looked up. -/
theorem first_symbol {s : Symbol} {c : Char} (hs : s.text.toList = [c]) (cs : List Char) :
    first c cs = if c = '/' ∧ cs.head? = some '/' then ⟨.comment, c :: commentRest cs⟩
      else symbolOrStray c cs := by
  cases s <;>
    (obtain rfl : _ = c := (List.cons.inj hs).1
     rfl)

end Segment

/-- A pair of characters is looked up as a symbol. -/
theorem pairSymbol?_eq_some_iff {c : Char} {cs : List Char} {s : Symbol} :
    pairSymbol? c cs = some s ↔ ∃ d v, cs = d :: v ∧ s.text.toList = [c, d] := by
  cases cs with
  | nil => simp [pairSymbol?]
  | cons d v => simp [pairSymbol?, Symbol.ofChars?_eq_some_iff]

/-- The digits at the front belong to the number. -/
theorem length_le_numberRest {ds : List Char} (hds : ∀ d ∈ ds, d.isDigit = true) (v : List Char) :
    ds.length ≤ (numberRest (ds ++ v)).length := by
  have hwhole := length_le_takeWhile hds v
  unfold numberRest
  split
  · split
    · rw [List.length_append]
      omega
    · exact hwhole
  · exact hwhole

/-- A point with digits after it belongs to the number. -/
theorem numberRest_fraction {ds : List Char} (hds : ∀ d ∈ ds, d.isDigit = true) {d : Char}
    (hd : d.isDigit = true) (more : List Char) :
    numberRest (ds ++ '.' :: d :: more) = ds ++ '.' :: d :: more.takeWhile Char.isDigit := by
  unfold numberRest
  rw [dropWhile_append_cons hds rfl, takeWhile_append_cons hds rfl]
  simp [hd]

/-- A string ends at the first quote after the opening one. -/
theorem stringBody_append {body : List Char} (hbody : '\x22' ∉ body) (v : List Char) :
    stringBody (body ++ '\x22' :: v) = body := by
  apply takeWhile_append_cons
  · intro d hd
    have hne : d ≠ '\x22' := by
      rintro rfl
      exact hbody hd
    simp [isQuote, hne]
  · rfl

/-- No character of a comment ends its line. -/
theorem bne_newline_of_mem {body : List Char} (hbody : '\n' ∉ body) :
    ∀ d ∈ '/' :: body, (d != '\n') = true := by
  intro d hd
  rcases List.mem_cons.mp hd with rfl | hd
  · rfl
  · simp only [bne_iff_ne, ne_eq]
    rintro rfl
    exact hbody hd

/-- There is a quote in a text exactly if one of its characters is a quote. -/
theorem any_isQuote_iff {cs : List Char} : cs.any isQuote = true ↔ '\x22' ∈ cs := by
  simp [isQuote]

/-! ## The first segment covers whatever fits -/

/-- A symbol at the front of a text is covered by the first segment. -/
theorem first_covers_symbol {s : Symbol} {v : List Char} {c : Char} {cs : List Char}
    (htext : s.text.toList ++ v = c :: cs) :
    s.text.toList.length < (Segment.first c cs).text.length ∨
      .symbol s = (Segment.first c cs).cls ∧
        s.text.toList.length ≤ (Segment.first c cs).text.length := by
  rcases s.toList_text with ⟨d, hs⟩ | ⟨d, d', hs⟩
  · rw [hs] at htext ⊢
    obtain ⟨rfl, rfl⟩ := List.cons.inj htext
    rw [Segment.first_symbol hs]
    split
    · next hcomment =>
      -- a slash that starts a comment
      obtain ⟨rfl, hhead⟩ := hcomment
      cases v with
      | nil => cases hhead
      | cons x v =>
          obtain rfl : x = '/' := Option.some.inj hhead
          exact .inl (by simp [commentRest])
    · unfold Segment.symbolOrStray
      split
      · next s' hpair =>
        -- the first character of a symbol of two
        obtain ⟨x, w, rfl, -⟩ := pairSymbol?_eq_some_iff.mp hpair
        exact .inl (by simp)
      · rw [Symbol.ofChars?_eq_some_iff.mpr hs]
        exact .inr ⟨rfl, Nat.le_refl _⟩
  · rw [hs] at htext ⊢
    obtain ⟨rfl, rfl⟩ : d = c ∧ d' :: v = cs := List.cons.inj htext
    obtain ⟨s', -, hs'⟩ := s.exists_text_eq_take
    rw [hs] at hs'
    have hslash : ¬(d = '/' ∧ (d' :: v).head? = some '/') := by
      rintro ⟨rfl, hhead⟩
      obtain rfl : d' = '/' := Option.some.inj hhead
      cases s <;> simp [Symbol.text] at hs
    have hpair : pairSymbol? d (d' :: v) = some s :=
      pairSymbol?_eq_some_iff.mpr ⟨d', v, rfl, hs⟩
    have hfirst : Segment.first d (d' :: v) = ⟨.symbol s, [d, d']⟩ := by
      rw [Segment.first_symbol hs', if_neg hslash, Segment.symbolOrStray, hpair]
      rfl
    rw [hfirst]
    exact .inr ⟨rfl, Nat.le_refl _⟩

/-- A character that starts nothing else is a stray one. -/
theorem first_stray {c : Char} (hblank : c ≠ ' ' ∧ c ≠ '\r' ∧ c ≠ '\t' ∧ c ≠ '\n')
    (hquote : c ≠ '\x22') (hdigit : c.isDigit = false)
    (hletter : c.isAlpha = false ∧ c ≠ '_') (hsymbol : ∀ s : Symbol, s.text.toList ≠ [c])
    (cs : List Char) : Segment.first c cs = ⟨.stray, [c]⟩ := by
  have hslash : c ≠ '/' := by
    rintro rfl
    exact hsymbol .slash rfl
  have hpair : pairSymbol? c cs = none := by
    rw [Option.eq_none_iff_forall_ne_some]
    intro s hs
    obtain ⟨d, v, -, htext⟩ := pairSymbol?_eq_some_iff.mp hs
    obtain ⟨s', -, hs'⟩ := s.exists_text_eq_take
    rw [htext] at hs'
    exact hsymbol s' hs'
  have hsingle : Symbol.ofChars? [c] = none := by
    rw [Option.eq_none_iff_forall_ne_some]
    intro s hs
    exact hsymbol s (Symbol.ofChars?_eq_some_iff.mp hs)
  simp [Segment.first, Segment.symbolOrStray, isLayoutBlank, isQuote, isWordStart, hblank, hquote,
    hdigit, hletter, hslash, hpair, hsingle]

/-- **Whatever fits the lexical grammar at the front of a text is covered by the
first segment**, and is of its class if it covers as much. -/
theorem Lexical.first_covers {cls : Segment.Class} {u v : List Char} (h : Lexical cls u v)
    {c : Char} {cs : List Char} (htext : u ++ v = c :: cs) :
    u.length < (Segment.first c cs).text.length ∨
      cls = (Segment.first c cs).cls ∧ u.length ≤ (Segment.first c cs).text.length := by
  cases h with
  | blank hc =>
      obtain ⟨rfl, rfl⟩ := List.cons.inj htext
      rw [Segment.first_blank hc]
      exact .inr ⟨rfl, Nat.le_refl _⟩
  | newline =>
      obtain ⟨rfl, rfl⟩ := List.cons.inj htext
      exact .inr ⟨rfl, Nat.le_refl _⟩
  | @comment body _ hbody =>
      obtain ⟨rfl, rfl⟩ := List.cons.inj htext
      have hlength := length_le_takeWhile (bne_newline_of_mem hbody) v
      refine .inr ⟨rfl, ?_⟩
      exact Nat.succ_le_succ hlength
  | @string body _ hbody =>
      rw [List.append_assoc, List.cons_append] at htext
      obtain ⟨rfl, rfl⟩ := List.cons.inj htext
      have hany : (body ++ (['\x22'] ++ v)).any isQuote = true := any_isQuote_iff.mpr (by simp)
      have hcut : stringBody (body ++ (['\x22'] ++ v)) = body := stringBody_append hbody v
      rw [Segment.first_quote, if_pos hany, hcut]
      exact .inr ⟨rfl, Nat.le_refl _⟩
  | @openString body hbody =>
      rw [List.append_nil] at htext
      obtain ⟨rfl, rfl⟩ := List.cons.inj htext
      have hany : ¬ body.any isQuote = true := fun h => hbody (any_isQuote_iff.mp h)
      rw [Segment.first_quote, if_neg hany]
      exact .inr ⟨rfl, Nat.le_refl _⟩
  | whole hne hds =>
      cases u with
      | nil => exact absurd rfl hne
      | cons d ds =>
          obtain ⟨rfl, rfl⟩ := List.cons.inj htext
          rw [Segment.first_number (hds d List.mem_cons_self)]
          refine .inr ⟨rfl, ?_⟩
          exact Nat.succ_le_succ
            (length_le_numberRest (fun x hx => hds x (List.mem_cons_of_mem _ hx)) v)
  | @fraction ds fs _ hne hds hfne hfs =>
      cases ds with
      | nil => exact absurd rfl hne
      | cons d ds =>
          cases fs with
          | nil => exact absurd rfl hfne
          | cons f fs =>
              rw [List.cons_append, List.cons_append] at htext
              obtain ⟨rfl, rfl⟩ := List.cons.inj htext
              rw [Segment.first_number (hds d List.mem_cons_self)]
              refine .inr ⟨rfl, ?_⟩
              rw [List.append_assoc, List.cons_append, List.cons_append, List.cons_append,
                numberRest_fraction (fun x hx => hds x (List.mem_cons_of_mem _ hx))
                  (hfs f List.mem_cons_self)]
              have hlength :=
                length_le_takeWhile (fun x hx => hfs x (List.mem_cons_of_mem _ hx)) v
              simp only [List.length_cons, List.length_append]
              omega
  | @word d ds _ hd hds =>
      obtain ⟨rfl, rfl⟩ := List.cons.inj htext
      have hstart : isWordStart d = true := by simpa [isWordStart] using hd
      have hall : ∀ x ∈ ds, isWordChar x = true := by
        intro x hx
        simpa [isWordChar, isWordStart, or_assoc] using hds x hx
      rw [Segment.first_word hstart]
      exact .inr ⟨rfl, Nat.succ_le_succ (length_le_takeWhile hall v)⟩
  | symbol s => exact first_covers_symbol htext
  | stray hblank hquote hdigit hletter hsymbol =>
      obtain ⟨rfl, rfl⟩ := List.cons.inj htext
      rw [first_stray hblank hquote hdigit hletter hsymbol]
      exact .inr ⟨rfl, Nat.le_refl _⟩

/-! ## The first segment fits -/

/-- What is taken from the front of a text by a class consists of the class. -/
theorem of_mem_takeWhile {p : Char → Bool} {cs : List Char} {c : Char}
    (h : c ∈ cs.takeWhile p) : p c = true :=
  List.all_eq_true.mp List.all_takeWhile c h

/-- A digit with the rest of its number is a number. -/
theorem lexical_number {c : Char} (hc : c.isDigit = true) (cs rest : List Char) :
    Lexical .number (c :: numberRest cs) rest := by
  have hwhole : ∀ d ∈ c :: cs.takeWhile Char.isDigit, d.isDigit = true := by
    intro d hd
    rcases List.mem_cons.mp hd with rfl | hd
    · exact hc
    · exact of_mem_takeWhile hd
  unfold numberRest
  split
  · next d more hdrop =>
    split
    · next hd =>
      rw [← List.cons_append]
      refine .fraction (List.cons_ne_nil _ _) hwhole (List.cons_ne_nil _ _) ?_
      intro x hx
      rcases List.mem_cons.mp hx with rfl | hx
      · exact hd
      · exact of_mem_takeWhile hx
    · exact .whole (List.cons_ne_nil _ _) hwhole
  · exact .whole (List.cons_ne_nil _ _) hwhole

/-- A symbol or a stray character fits as such. -/
theorem lexical_symbolOrStray {c : Char} {cs : List Char}
    (hblank : c ≠ ' ' ∧ c ≠ '\r' ∧ c ≠ '\t' ∧ c ≠ '\n') (hquote : c ≠ '\x22')
    (hdigit : c.isDigit = false) (hletter : c.isAlpha = false ∧ c ≠ '_') (rest : List Char) :
    Lexical (Segment.symbolOrStray c cs).cls (Segment.symbolOrStray c cs).text rest := by
  unfold Segment.symbolOrStray
  split
  · next s hpair =>
    obtain ⟨d, v, rfl, hs⟩ := pairSymbol?_eq_some_iff.mp hpair
    have hlexical : Lexical (.symbol s) s.text.toList rest := .symbol s
    rwa [hs] at hlexical
  · split
    · next s hs =>
      have hlexical : Lexical (.symbol s) s.text.toList rest := .symbol s
      rwa [Symbol.ofChars?_eq_some_iff.mp hs] at hlexical
    · next hnone =>
      refine .stray hblank hquote hdigit hletter ?_
      intro s hs
      rw [Symbol.ofChars?_eq_some_iff.mpr hs] at hnone
      cases hnone

/-- The first segment fits the lexical grammar. -/
theorem lexical_first (c : Char) (cs : List Char) :
    Lexical (Segment.first c cs).cls (Segment.first c cs).text
      (cs.drop ((Segment.first c cs).text.length - 1)) := by
  by_cases hblank : c = ' ' ∨ c = '\r' ∨ c = '\t'
  · rw [Segment.first_blank hblank]
    exact .blank hblank
  by_cases hnewline : c = '\n'
  · subst hnewline
    exact .newline
  by_cases hquote : c = '\x22'
  · subst hquote
    rw [Segment.first_quote]
    split
    · refine .string ?_
      intro hmem
      have hnot := of_mem_takeWhile hmem
      cases hnot
    · next hany =>
      have hrest : cs.drop (('\x22' :: cs).length - 1) = [] := by simp
      rw [hrest]
      exact .openString fun hmem => hany (any_isQuote_iff.mpr hmem)
  by_cases hdigit : c.isDigit = true
  · rw [Segment.first_number hdigit]
    exact lexical_number hdigit cs _
  by_cases hword : isWordStart c = true
  · rw [Segment.first_word hword]
    refine .word (by simpa [isWordStart] using hword) ?_
    intro d hd
    have hchar : isWordChar d = true := of_mem_takeWhile hd
    simpa [isWordChar, isWordStart, or_assoc] using hchar
  have hblank' : isLayoutBlank c = false := by
    simpa [isLayoutBlank, and_assoc] using hblank
  have hquote' : isQuote c = false := by simpa [isQuote] using hquote
  by_cases hcomment : c = '/' ∧ cs.head? = some '/'
  · obtain ⟨rfl, hhead⟩ := hcomment
    cases cs with
    | nil => cases hhead
    | cons d cs =>
        obtain rfl : d = '/' := Option.some.inj hhead
        rw [Segment.first_comment]
        refine .comment ?_
        intro hmem
        have hnot := of_mem_takeWhile hmem
        cases hnot
  · have hfirst : Segment.first c cs = Segment.symbolOrStray c cs := by
      simp only [Segment.first, hblank', hnewline, hcomment, hquote', hdigit, hword, if_false,
        Bool.false_eq_true]
    rw [hfirst]
    refine lexical_symbolOrStray ?_ hquote (by simpa using hdigit) ?_ _
    · simp only [not_or] at hblank
      exact ⟨hblank.1, hblank.2.1, hblank.2.2, hnewline⟩
    · simpa [isWordStart] using hword

/-- **The first segment is the longest one.** -/
theorem longest_first (c : Char) (cs : List Char) :
    Longest (Segment.first c cs) (cs.drop ((Segment.first c cs).text.length - 1)) where
  lexical := lexical_first c cs
  longest := by
    intro cls u v htext h
    rw [Segment.first_append_drop] at htext
    rcases h.first_covers htext with hlt | ⟨-, hle⟩
    · exact Nat.le_of_lt hlt
    · exact hle

/-! ## Cutting a text -/

/-- No segment is empty. -/
theorem Lexical.ne_nil {cls : Segment.Class} {u v : List Char} (h : Lexical cls u v) :
    u ≠ [] := by
  cases h with
  | whole hne hds => exact hne
  | symbol s => cases s <;> decide
  | _ => simp

/-- The longest segment at the front of a text is the first one. -/
theorem Longest.eq_first {s : Segment} {rest : List Char} (hs : Longest s rest) {c : Char}
    {cs : List Char} (htext : s.text ++ rest = c :: cs) :
    s = Segment.first c cs ∧ rest = cs.drop ((Segment.first c cs).text.length - 1) := by
  have hfirst := Segment.first_append_drop c cs
  have hlength : (Segment.first c cs).text.length ≤ s.text.length :=
    hs.longest _ _ _ (hfirst.trans htext.symm) (lexical_first c cs)
  -- as long as the first segment, it is the same text and of the same class
  rcases hs.lexical.first_covers htext with hlt | ⟨hcls, hle⟩
  · omega
  · obtain ⟨heq, hrest⟩ :=
      List.append_inj (htext.trans hfirst.symm) (Nat.le_antisymm hle hlength)
    refine ⟨?_, hrest⟩
    obtain ⟨cls, text⟩ := s
    simp_all

/-- A text is cut properly into its segments. -/
theorem cut_segments (cs : List Char) : Cut cs (segments cs) := by
  match cs with
  | [] => exact .nil
  | c :: cs =>
      have hcut := Cut.cons (longest_first c cs)
        (cut_segments (cs.drop ((Segment.first c cs).text.length - 1)))
      rw [Segment.first_append_drop] at hcut
      rw [segments_cons]
      exact hcut
termination_by cs.length
decreasing_by
  rw [List.length_drop, List.length_cons]
  omega

/-- **A text is cut properly in exactly one way.** -/
theorem cut_iff {cs : List Char} {pieces : List Segment} :
    Cut cs pieces ↔ pieces = segments cs := by
  constructor
  · intro h
    induction h with
    | nil => rfl
    | @cons s rest pieces hs hrest ih =>
        cases htext : s.text ++ rest with
        | nil => exact absurd (List.append_eq_nil_iff.mp htext).1 hs.lexical.ne_nil
        | cons c cs =>
            obtain ⟨rfl, rfl⟩ := hs.eq_first htext
            rw [segments_cons, ih]
  · rintro rfl
    exact cut_segments cs

end LoxCalc
