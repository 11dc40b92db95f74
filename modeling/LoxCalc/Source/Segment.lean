import LoxCalc.Token.Kind

/-!
# Segments of a source text

A source text is cut into consecutive **segments**, each the longest one that can start where the
previous one ended: a blank, a line feed, a comment, a string, a string that is never closed, a
number, a word, a symbol, or a stray character that starts none of these.

`Segment.first` finds the segment at the front of a text and `segments` cuts a whole text.  The
latter walks along the text character by character and skips those that belong to the segment found
last, so it needs no measure to see that it ends.

* `segments_cons`: a text is cut by cutting off its first segment;
* `flatMap_segments`: **nothing is lost**, the segments put together are the text.
-/

namespace LoxCalc

/-- The classes of segments. -/
inductive Segment.Class
  | blank
  | newline
  | comment
  | string
  /-- A string that runs to the end of the text without a closing quote. -/
  | openString
  | number
  | word
  | symbol (s : Symbol)
  | stray
  deriving DecidableEq

/-- A piece of source text with its class. -/
structure Segment where
  cls : Segment.Class
  text : List Char
  deriving DecidableEq

/-- The blanks between tokens, the line feed apart. -/
def isLayoutBlank (c : Char) : Bool :=
  c == ' ' || c == '\r' || c == '\t'

/-- The characters that a word starts with. -/
def isWordStart (c : Char) : Bool :=
  c.isAlpha || c == '_'

/-- The characters that a word goes on with. -/
def isWordChar (c : Char) : Bool :=
  isWordStart c || c.isDigit

/-- The quote around a string. -/
def isQuote (c : Char) : Bool :=
  c == '\x22'

/-- The rest of a number whose first digits have been read: digits, then a point if digits follow
it. -/
def numberRest (cs : List Char) : List Char :=
  let whole := cs.takeWhile Char.isDigit
  match cs.dropWhile Char.isDigit with
  | '.' :: d :: more =>
    if d.isDigit then whole ++ '.' :: d :: more.takeWhile Char.isDigit else whole
  | _ => whole

/-- What stands before the closing quote of a string. -/
def stringBody (cs : List Char) : List Char :=
  cs.takeWhile fun c => !isQuote c

/-- A comment without its first character: everything up to the end of the line. -/
def commentRest (cs : List Char) : List Char :=
  cs.takeWhile (· != '\n')

/-- The symbol of two characters at the front of a text. -/
def pairSymbol? (c : Char) (cs : List Char) : Option Symbol :=
  cs.head?.bind fun d => Symbol.ofChars? [c, d]

namespace Segment

/-- The segment of a symbol or of a stray character. -/
def symbolOrStray (c : Char) (cs : List Char) : Segment :=
  match pairSymbol? c cs with
  | some s => ⟨.symbol s, c :: cs.take 1⟩
  | none =>
    match Symbol.ofChars? [c] with
    | some s => ⟨.symbol s, [c]⟩
    | none => ⟨.stray, [c]⟩

/-- The segment at the front of the text `c :: cs`. -/
def first (c : Char) (cs : List Char) : Segment :=
  if isLayoutBlank c then ⟨.blank, [c]⟩
  else if c = '\n' then ⟨.newline, [c]⟩
  else if c = '/' ∧ cs.head? = some '/' then ⟨.comment, c :: commentRest cs⟩
  else if isQuote c then
    if cs.any isQuote then ⟨.string, c :: stringBody cs ++ [c]⟩ else ⟨.openString, c :: cs⟩
  else if c.isDigit then ⟨.number, c :: numberRest cs⟩
  else if isWordStart c then ⟨.word, c :: cs.takeWhile isWordChar⟩
  else symbolOrStray c cs

end Segment

/-- The segments that start after the next `skip` characters. -/
def segmentsFrom : Nat → List Char → List Segment
  | _, [] => []
  | skip + 1, _ :: cs => segmentsFrom skip cs
  | 0, c :: cs =>
    Segment.first c cs :: segmentsFrom ((Segment.first c cs).text.length - 1) cs

/-- Cuts a text into its segments. -/
def segments (cs : List Char) : List Segment :=
  segmentsFrom 0 cs

/-- Skipping characters is dropping them. -/
theorem segmentsFrom_eq (n : Nat) (cs : List Char) : segmentsFrom n cs = segments (cs.drop n) := by
  induction cs generalizing n with
  | nil => cases n <;> rfl
  | cons c cs ih =>
    cases n with
    | zero => rfl
    | succ n => simpa [segmentsFrom] using ih n

/-- A text is cut by cutting off its first segment. -/
theorem segments_cons (c : Char) (cs : List Char) :
    segments (c :: cs) =
      Segment.first c cs :: segments (cs.drop ((Segment.first c cs).text.length - 1)) := by
  rw [segments, segmentsFrom, segmentsFrom_eq]

/-- The rest of a number comes from the front of the text. -/
theorem numberRest_isPrefix (cs : List Char) : numberRest cs <+: cs := by
  have h := List.takeWhile_append_dropWhile (p := Char.isDigit) (l := cs)
  unfold numberRest
  split
  · next d more hd =>
    split
    · refine ⟨more.dropWhile Char.isDigit, ?_⟩
      rw [hd] at h
      conv => rhs; rw [← h]
      simp [List.takeWhile_append_dropWhile]
    · exact List.takeWhile_prefix _
  · exact List.takeWhile_prefix _

/-- Where there is a closing quote it follows the body of the string. -/
theorem stringBody_append_quote (cs : List Char) (h : cs.any isQuote = true) :
    stringBody cs ++ ['\x22'] <+: cs := by
  induction cs with
  | nil => simp at h
  | cons c cs ih =>
    by_cases hc : isQuote c = true
    · have hquote : c = '\x22' := by simpa [isQuote] using hc
      subst hquote
      simp [stringBody, hc]
    · have hcs : cs.any isQuote = true := by simpa [hc] using h
      simpa [stringBody, hc] using ih hcs

namespace Segment

/-- The first segment comes from the front of the text. -/
theorem first_isPrefix (c : Char) (cs : List Char) : (first c cs).text <+: c :: cs := by
  unfold first
  split
  · simp
  split
  · simp
  split
  · simpa [commentRest] using List.takeWhile_prefix _
  split
  · next hq =>
    have hquote : c = '\x22' := by simpa [isQuote] using hq
    split
    · next h => simpa [hquote] using stringBody_append_quote cs h
    · simp
  split
  · simpa using numberRest_isPrefix cs
  split
  · simpa using List.takeWhile_prefix _
  · unfold symbolOrStray
    split
    · simpa using List.take_prefix 1 cs
    · split <;> simp

/-- The first segment is not empty. -/
theorem length_first_pos (c : Char) (cs : List Char) : 0 < (first c cs).text.length := by
  unfold first symbolOrStray
  repeat' split
  all_goals simp

/-- The first segment and what is cut next make up the text. -/
theorem first_append_drop (c : Char) (cs : List Char) :
    (first c cs).text ++ cs.drop ((first c cs).text.length - 1) = c :: cs := by
  obtain ⟨rest, h⟩ := first_isPrefix c cs
  have hrest : (c :: cs).drop (first c cs).text.length = rest := by simp [← h]
  obtain ⟨n, hn⟩ : ∃ n, (first c cs).text.length = n + 1 :=
    ⟨_, (Nat.succ_pred_eq_of_pos (length_first_pos c cs)).symm⟩
  rw [hn] at hrest ⊢
  simpa [← hrest] using h

end Segment

/-- **Nothing is lost.**  The segments of a text put together are the text. -/
theorem flatMap_segments (cs : List Char) : (segments cs).flatMap Segment.text = cs := by
  match cs with
  | [] => rfl
  | c :: cs =>
    rw [segments_cons, List.flatMap_cons, flatMap_segments, Segment.first_append_drop]
termination_by cs.length
decreasing_by
  rw [List.length_drop, List.length_cons]
  omega

end LoxCalc
