import LoxCalc.Proofs.Boundary
import LoxCalc.Proofs.Soundness

/-!
# Writing tokens down

Tokens are written down by putting their lexemes one after the other with a
blank between any two.  A string, a number, a word or a symbol that is followed
by a **gap**, a blank or the end of the text, is the longest segment where it
stands, so the text is cut into exactly the segments that were written
(`cut_spaced`), and scanning it gives back the same tokens, on other lines
perhaps (`scan_joined`).

The tokens that can be written down in this way are the **well-formed** ones
(`Token.wellFormed_iff_lexed`).
-/

namespace LoxCalc

/-! ## Segments before a gap -/

/-- The text is over, or it goes on with a blank. -/
def Gap (rest : List Char) : Prop :=
  rest = [] ∨ ∃ more, rest = ' ' :: more

/-- A segment that is found at the front of a text is the longest one there. -/
theorem longest_of_first_eq {s : Segment} {rest cs : List Char} {c : Char}
    (htext : s.text ++ rest = c :: cs) (hfirst : Segment.first c cs = s) : Longest s rest := by
  have hlongest := longest_first c cs
  have hsplit := Segment.first_append_drop c cs
  rw [hfirst] at hlongest hsplit
  have hrest : cs.drop (s.text.length - 1) = rest :=
    List.append_cancel_left (hsplit.trans htext.symm)
  rwa [hrest] at hlongest

/-- A blank is a segment of its own. -/
theorem longest_blank {c : Char} (hc : c = ' ' ∨ c = '\r' ∨ c = '\t') (rest : List Char) :
    Longest ⟨.blank, [c]⟩ rest :=
  longest_of_first_eq rfl (Segment.first_blank hc rest)

/-- A token is neither a comment nor a string without a closing quote. -/
theorem Segment.cls_of_isToken {s : Segment} (h : s.isToken = true) :
    s.cls ≠ .comment ∧ s.cls ≠ .openString := by
  obtain ⟨cls, text⟩ := s
  constructor <;> rintro rfl <;> cases h

/-- A token at the end of a text or before a layout character is the longest
segment, whatever text it was taken from. -/
theorem Lexical.longest_of_isToken {s : Segment} {v : List Char} (hs : Lexical s.cls s.text v)
    (htoken : s.isToken = true) :
    Longest s [] ∧ ∀ c more, isLayout c = true → Longest s (c :: more) := by
  obtain ⟨hcomment, hclosed⟩ := Segment.cls_of_isToken htoken
  have hend : Longest s [] := (hs.of_ne_openString hclosed []).longest_nil
  refine ⟨hend, ?_⟩
  intro c more hc
  exact Longest.before_layout (w := []) hend hclosed (fun hcls => absurd hcls hcomment) hc

/-- **A token before a gap is the longest segment**, whatever text it was taken
from. -/
theorem Lexical.longest_of_gap {s : Segment} {v rest : List Char} (hs : Lexical s.cls s.text v)
    (htoken : s.isToken = true) (h : Gap rest) : Longest s rest := by
  obtain ⟨hend, hlayout⟩ := hs.longest_of_isToken htoken
  rcases h with rfl | ⟨more, rfl⟩
  · exact hend
  · exact hlayout ' ' more rfl

/-! ## Segments with blanks between them -/

/-- The segments with a blank between any two. -/
def spaced (ss : List Segment) : List Segment :=
  ss.intersperse ⟨.blank, [' ']⟩

theorem spaced_cons_cons (s s' : Segment) (ss : List Segment) :
    spaced (s :: s' :: ss) = s :: ⟨.blank, [' ']⟩ :: spaced (s' :: ss) := rfl

/-- The text of spaced segments is their texts joined by blanks. -/
theorem flatMap_spaced (ss : List Segment) :
    (spaced ss).flatMap Segment.text = [' '].intercalate (ss.map Segment.text) := by
  match ss with
  | [] => rfl
  | [s] => simp [spaced]
  | s :: s' :: ss =>
      have ih := flatMap_spaced (s' :: ss)
      rw [spaced_cons_cons, List.flatMap_cons, List.flatMap_cons, ih]
      simp only [List.map_cons, List.intercalate_cons_cons, List.append_assoc]

/-- **Spaced segments are cut as they were written.** -/
theorem cut_spaced {ss : List Segment} (h : ∀ s ∈ ss, ∀ rest, Gap rest → Longest s rest) :
    Cut ((spaced ss).flatMap Segment.text) (spaced ss) := by
  match ss with
  | [] => exact .nil
  | [s] => exact .cons (h s List.mem_cons_self _ (.inl rfl)) .nil
  | s :: s' :: ss =>
      have ih := cut_spaced fun x hx => h x (List.mem_cons_of_mem s hx)
      rw [spaced_cons_cons]
      exact .cons (h s List.mem_cons_self _ (.inr ⟨_, rfl⟩)) (.cons (longest_blank (.inl rfl) _) ih)

/-! ## Scanning what was written -/

namespace Token

/-- The token, on no particular line. -/
def unplaced (t : Token) : Token :=
  { t with line := 0 }

/-- The segment that a token is written as. -/
def segment (t : Token) : Segment where
  cls := match t.kind with
    | .symbol s => .symbol s
    | .string => .string
    | .number => .number
    | .identifier | .keyword _ => .word
    | .eof | .error => .stray
  text := t.lexeme.toList

end Token

namespace Gives

variable {s : Segment} {t : Token}

/-- A token is written as the segment it belongs to. -/
theorem segment_eq (h : Gives s t) : t.segment = s := by
  cases h <;> simp [Token.segment]

theorem isToken_eq (h : Gives s t) : s.isToken = true := by
  cases h <;> rfl

/-- A segment has no other tokens than those that belong to it. -/
theorem token?_eq (h : Gives s t) (line : Int) : s.token? line = some { t with line } := by
  cases h with
  | string => simp [Segment.token?]
  | number => rfl
  | keyword k => simp [Segment.token?, Keyword.ofText?_text]
  | @identifier text _ hword =>
      have hnone : Keyword.ofText? (String.ofList text) = none := by
        rw [Option.eq_none_iff_forall_ne_some]
        intro k hk
        have htext := Keyword.ofText?_eq_some_iff.mp hk
        apply hword k
        rw [htext, String.toList_ofList]
      simp [Segment.token?, hnone]
  | symbol => rfl

end Gives

/-! ## Well-formed tokens -/

/-- The tokens whose lexeme and literal are as their kind demands. -/
inductive Token.WellFormed : Token → Prop
  | symbol (s : Symbol) {line : Int} : WellFormed ⟨.symbol s, s.text, line, none⟩
  | keyword (k : Keyword) {line : Int} : WellFormed ⟨.keyword k, k.text, line, none⟩
  | number {text : String} {line : Int} (h : Lexical .number text.toList []) :
      WellFormed ⟨.number, text, line, some text⟩
  | string {text : String} {line : Int} (h : '\x22' ∉ text.toList) :
      WellFormed
        ⟨.string, String.ofList ('\x22' :: text.toList ++ ['\x22']), line, some text⟩
  | identifier {text : String} {line : Int} (h : Lexical .word text.toList [])
      (hword : ∀ k : Keyword, k.text ≠ text) : WellFormed ⟨.identifier, text, line, none⟩

/-- Keywords are words. -/
theorem Keyword.lexical_text (k : Keyword) : Lexical .word k.text.toList [] := by
  have hstart : k.text.toList.head?.any isWordStart = true := by
    cases k <;> decide
  have hchars : k.text.toList.all isWordChar = true := by
    cases k <;> decide
  cases htext : k.text.toList with
  | nil =>
      rw [htext] at hstart
      cases hstart
  | cons c cs =>
      rw [htext] at hstart hchars
      refine .word (by simpa [isWordStart] using hstart) ?_
      intro d hd
      have hchar := List.all_eq_true.mp hchars d (List.mem_cons_of_mem c hd)
      simpa [isWordChar, isWordStart, or_assoc] using hchar

namespace Token

/-- Well-formed tokens are tokens of some text. -/
theorem WellFormed.lexed {t : Token} (h : t.WellFormed) : t.Lexed := by
  cases h with
  | @symbol s line =>
      have hgives : Gives ⟨.symbol s, s.text.toList⟩
          ⟨.symbol s, String.ofList s.text.toList, line, none⟩ := .symbol
      rw [String.ofList_toList] at hgives
      exact ⟨_, [], .symbol s, hgives⟩
  | keyword k => exact ⟨_, [], k.lexical_text, .keyword k⟩
  | @number text line h =>
      have hgives : Gives ⟨.number, text.toList⟩
          ⟨.number, String.ofList text.toList, line, some (String.ofList text.toList)⟩ := .number
      rw [String.ofList_toList] at hgives
      exact ⟨_, [], h, hgives⟩
  | @string text line h =>
      have hgives : Gives ⟨.string, '\x22' :: text.toList ++ ['\x22']⟩
          ⟨.string, String.ofList ('\x22' :: text.toList ++ ['\x22']), line,
            some (String.ofList text.toList)⟩ := .string
      rw [String.ofList_toList] at hgives
      exact ⟨_, [], .string h, hgives⟩
  | @identifier text line h hword =>
      have hgives : Gives ⟨.word, text.toList⟩
          ⟨.identifier, String.ofList text.toList, line, none⟩ := by
        refine .identifier ?_
        intro k hk
        exact hword k (String.toList_inj.mp hk)
      rw [String.ofList_toList] at hgives
      exact ⟨_, [], h, hgives⟩

/-- Tokens of a text are well formed. -/
theorem Lexed.wellFormed {t : Token} (h : t.Lexed) : t.WellFormed := by
  obtain ⟨s, rest, hs, hgives⟩ := h
  have hlexical := hs.of_ne_openString (Segment.cls_of_isToken hgives.isToken_eq).2 []
  cases hgives with
  | @string body line =>
      have hquote : '\x22' ∉ body := by
        generalize htext : '\x22' :: body ++ ['\x22'] = text at hlexical
        cases hlexical with
        | string hbody =>
            rw [(List.append_inj' (List.cons.inj htext).2 rfl).1]
            exact hbody
      have hformed : WellFormed
          ⟨.string, String.ofList ('\x22' :: (String.ofList body).toList ++ ['\x22']), line,
            some (String.ofList body)⟩ := .string (by rwa [String.toList_ofList])
      rwa [String.toList_ofList] at hformed
  | number =>
      refine .number ?_
      rwa [String.toList_ofList]
  | keyword k => exact .keyword k
  | @identifier text line hword =>
      refine .identifier (by rwa [String.toList_ofList]) ?_
      intro k hk
      apply hword k
      rw [hk, String.toList_ofList]
  | @symbol s text line =>
      have htext : String.ofList text = s.text := by
        cases hlexical with
        | symbol => exact String.ofList_toList
      rw [htext]
      exact .symbol s

/-- **The well-formed tokens are the tokens of texts.** -/
theorem wellFormed_iff_lexed {t : Token} : t.WellFormed ↔ t.Lexed :=
  ⟨WellFormed.lexed, Lexed.wellFormed⟩

end Token

namespace Scan

/-- Up to their lines, the tokens read off segments are those of each segment. -/
theorem unplaced_tokens_ofSegments (line : Int) (pieces : List Segment) :
    (ofSegments line pieces).tokens.map Token.unplaced
      = pieces.filterMap (Segment.token? 0) ++ [Token.endOfSource 0] := by
  induction pieces generalizing line with
  | nil => rfl
  | cons s pieces ih =>
      have hline : (s.token? (s.lineAfter line)).map Token.unplaced = s.token? 0 := by
        obtain ⟨cls, text⟩ := s
        cases cls <;> rfl
      rw [ofSegments, List.map_append, ih, List.filterMap_cons, ← hline]
      cases s.token? (s.lineAfter line) <;> rfl

/-- Segments without problems report none. -/
theorem errors_ofSegments_eq_nil {pieces : List Segment}
    (h : pieces.filter Segment.isProblem = []) (line : Int) :
    (ofSegments line pieces).errors = [] := by
  have hreports := errors_ofSegments pieces line
  rw [h] at hreports
  exact List.forall₂_nil_left_iff.mp hreports

end Scan

/-- Blanks between segments give no tokens. -/
theorem filterMap_spaced (ss : List Segment) :
    (spaced ss).filterMap (Segment.token? 0) = ss.filterMap (Segment.token? 0) := by
  match ss with
  | [] => rfl
  | [s] => rfl
  | s :: s' :: ss =>
      have ih := filterMap_spaced (s' :: ss)
      rw [spaced_cons_cons, List.filterMap_cons, List.filterMap_cons_none rfl, ih,
        ← List.filterMap_cons]

/-- Spaced segments are the segments and blanks. -/
theorem mem_spaced {ss : List Segment} {s : Segment} (h : s ∈ spaced ss) :
    s ∈ ss ∨ s = ⟨.blank, [' ']⟩ := by
  match ss with
  | [] => exact .inl h
  | [_] => exact .inl h
  | x :: y :: ss =>
      rw [spaced_cons_cons] at h
      rcases List.mem_cons.mp h with rfl | h
      · exact .inl List.mem_cons_self
      rcases List.mem_cons.mp h with h | h
      · exact .inr h
      rcases mem_spaced h with h | h
      · exact .inl (List.mem_cons_of_mem _ h)
      · exact .inr h

/-- A token is no problem. -/
theorem Segment.isProblem_of_isToken {s : Segment} (h : s.isToken = true) :
    s.isProblem = false := by
  obtain ⟨cls, text⟩ := s
  cases cls <;> simp_all [isToken, isProblem]

/-- Neither tokens nor the blanks between them are problems. -/
theorem filter_isProblem_spaced {ss : List Segment} (h : ∀ s ∈ ss, s.isToken = true) :
    (spaced ss).filter Segment.isProblem = [] := by
  rw [List.filter_eq_nil_iff]
  intro s hs hproblem
  rcases mem_spaced hs with hmem | rfl
  · rw [Segment.isProblem_of_isToken (h s hmem)] at hproblem
    cases hproblem
  · cases hproblem

/-- The lexemes of tokens with a blank between any two. -/
def joined (ts : List Token) : String :=
  String.intercalate " " (ts.map Token.lexeme)

/-- **Tokens that are written down are read back**, without a problem, as the
same tokens up to their lines. -/
theorem scan_joined {ts : List Token} (h : ∀ t ∈ ts, t.Lexed) :
    (scan (joined ts)).errors = [] ∧
      (scan (joined ts)).tokens.map Token.unplaced
        = ts.map Token.unplaced ++ [Token.endOfSource 0] := by
  have hmap : ∀ s ∈ ts.map Token.segment, s.isToken = true ∧ ∃ v, Lexical s.cls s.text v := by
    intro s hs
    obtain ⟨t, ht, rfl⟩ := List.mem_map.mp hs
    obtain ⟨s, v, hlexical, hgives⟩ := h t ht
    rw [hgives.segment_eq]
    exact ⟨hgives.isToken_eq, v, hlexical⟩
  have hcut : Cut (joined ts).toList (spaced (ts.map Token.segment)) := by
    have htext : (joined ts).toList = (spaced (ts.map Token.segment)).flatMap Segment.text := by
      rw [joined, String.toList_intercalate, flatMap_spaced, List.map_map, List.map_map]
      rfl
    rw [htext]
    apply cut_spaced
    intro s hs rest hgap
    obtain ⟨htoken, v, hlexical⟩ := hmap s hs
    exact hlexical.longest_of_gap htoken hgap
  have htokens : (ts.map Token.segment).filterMap (Segment.token? 0) = ts.map Token.unplaced := by
    rw [List.filterMap_map, ← List.filterMap_eq_map]
    apply List.filterMap_congr
    intro t ht
    obtain ⟨s, v, -, hgives⟩ := h t ht
    show t.segment.token? 0 = some t.unplaced
    rw [hgives.segment_eq, hgives.token?_eq]
    rfl
  rw [scan, Scan.ofChars, ← cut_iff.mp hcut]
  constructor
  · exact Scan.errors_ofSegments_eq_nil (filter_isProblem_spaced fun s hs => (hmap s hs).1) 1
  · rw [Scan.unplaced_tokens_ofSegments, filterMap_spaced, htokens]

end LoxCalc
