import Mathlib.Order.Bounds.Basic
import LoxCalc.Proofs.Descent

/-!
# Where synchronizing stops

After a problem a parser can be sent to the next **boundary**: the place after a
semicolon, before a keyword that begins a statement, or before an end mark.  The
token that stands next is passed in any case, whatever it is, so a boundary is
looked for behind it only; at an end mark the parser stays.

* `isLeast_toBoundary`: the number of tokens passed is the least that leads to a
  boundary;
* `isBoundary_append`: a place is a boundary whatever comes before the last token
  in front of it.
-/

namespace LoxCalc

/-- The keywords that begin a statement. -/
def statementWords : List String :=
  ["class", "fun", "var", "for", "if", "while", "print", "return"]

/-- The place before the token with index `k` is a boundary. -/
def IsBoundary (ts : List Token) (k : Nat) : Prop :=
  (∃ t, ts[k]? = some t ∧ t.kind = .eof) ∨
  (∃ t, ts[k - 1]? = some t ∧ t.kind = .symbol .semicolon) ∨
  (∃ t w, ts[k]? = some t ∧ t.kind = .keyword w ∧ w.text ∈ statementWords)

/-- The kinds that begin a statement are the keywords listed. -/
theorem startsStatement_iff {kind : Kind} :
    kind.startsStatement = true ↔ ∃ w, kind = .keyword w ∧ w.text ∈ statementWords := by
  cases kind with
  | keyword w =>
      cases w <;> simp [Kind.startsStatement, Keyword.startsStatement, statementWords, Keyword.text]
  | _ => simp [Kind.startsStatement]

/-- Tokens further back do not matter. -/
theorem isBoundary_append (front ts : List Token) {k : Nat} (hk : 0 < k) :
    IsBoundary (front ++ ts) (front.length + k) ↔ IsBoundary ts k := by
  have hat : (front ++ ts)[front.length + k]? = ts[k]? := by
    rw [List.getElem?_append_right (Nat.le_add_right _ _), Nat.add_sub_cancel_left]
  have hbefore : (front ++ ts)[front.length + k - 1]? = ts[k - 1]? := by
    rw [List.getElem?_append_right (by omega), Nat.add_sub_assoc hk, Nat.add_sub_cancel_left]
  rw [IsBoundary, IsBoundary, hat, hbefore]

/-- The place after the first of two tokens. -/
theorem isBoundary_one {t u : Token} {ts : List Token} :
    IsBoundary (t :: u :: ts) 1 ↔
      u.isEnd = true ∨ t.kind = .symbol .semicolon ∨ u.kind.startsStatement = true := by
  simp [IsBoundary, Token.isEnd, startsStatement_iff]

/-- The least number of tokens that leads from a token to a boundary behind it. -/
theorem isLeast_toBoundary {t : Token} {ahead : List Token} (stop : Token) (beyond : List Token)
    (hahead : ∀ u ∈ ahead, u.isEnd = false) (hstop : stop.isEnd = true) :
    IsLeast {k | 0 < k ∧ IsBoundary (t :: ahead ++ stop :: beyond) k}
      (Parser.toBoundary (t :: ahead)) := by
  induction ahead generalizing t with
  | nil => exact ⟨⟨Nat.one_pos, isBoundary_one.mpr (.inl hstop)⟩, fun k hk => hk.1⟩
  | cons u ahead ih =>
      rw [Parser.toBoundary]
      split
      · next hboundary =>
        exact ⟨⟨Nat.one_pos, isBoundary_one.mpr (.inr hboundary)⟩, fun k hk => hk.1⟩
      · next hboundary =>
        obtain ⟨⟨hpos, hat⟩, hleast⟩ :=
          ih (fun v hv => hahead v (List.mem_cons_of_mem u hv))
        have hshift : ∀ {k}, 0 < k → (IsBoundary (t :: u :: ahead ++ stop :: beyond) (1 + k) ↔
            IsBoundary (u :: ahead ++ stop :: beyond) k) :=
          fun hk => isBoundary_append [t] _ hk
        rw [Nat.add_comm]
        refine ⟨⟨by omega, (hshift hpos).mpr hat⟩, ?_⟩
        rintro k ⟨hk, hboundaryAt⟩
        obtain rfl | hlt : k = 1 ∨ 1 < k := by omega
        · -- neither of the two tokens around the place makes it a boundary
          rcases isBoundary_one.mp hboundaryAt with hend | hother
          · rw [hahead u List.mem_cons_self] at hend
            exact absurd hend Bool.false_ne_true
          · exact absurd hother hboundary
        · obtain ⟨j, rfl⟩ := Nat.exists_eq_add_of_lt hlt
          have hj : 0 < j + 1 := Nat.succ_pos j
          have hleastAt := hleast ⟨hj, (hshift hj).mp hboundaryAt⟩
          omega

namespace Parser

/-- The boundaries behind the place where a parser stands. -/
theorem isBoundary_position_add (p : Parser) {k : Nat} (hk : 0 < k) :
    IsBoundary p.tokens (p.position + k) ↔ IsBoundary (p.ahead ++ p.stop :: p.beyond) k := by
  rw [tokens, List.append_assoc, position, ← List.length_reverse]
  exact isBoundary_append _ _ hk

/-- A parser that is not at an end mark passes the tokens up to the first boundary. -/
theorem isLeast_synchronize {p : Parser} (h : p.atEnd = false) :
    IsLeast {k | p.position < k ∧ IsBoundary p.tokens k} p.synchronize.position := by
  cases hahead : p.ahead with
  | nil => simp [atEnd, hahead] at h
  | cons t ahead =>
      have hrest : ∀ u ∈ ahead, u.isEnd = false :=
        fun u hu => p.ahead_not_end u (hahead ▸ List.mem_cons_of_mem t hu)
      obtain ⟨⟨hpos, hat⟩, hleast⟩ := isLeast_toBoundary (t := t) p.stop p.beyond hrest p.stop_isEnd
      rw [← hahead] at hpos hat hleast
      -- the first end mark is a boundary, so no move goes further
      have hstop : IsBoundary (p.ahead ++ p.stop :: p.beyond) p.ahead.length :=
        .inl ⟨p.stop, by simp, beq_iff_eq.mp p.stop_isEnd⟩
      have hle : toBoundary p.ahead ≤ p.ahead.length :=
        hleast ⟨by simp [hahead], hstop⟩
      rw [synchronize, position_move, Nat.min_eq_left hle]
      refine ⟨⟨Nat.lt_add_of_pos_right hpos, (p.isBoundary_position_add hpos).mpr hat⟩, ?_⟩
      rintro k ⟨hk, hboundary⟩
      obtain ⟨j, rfl⟩ := Nat.exists_eq_add_of_le (Nat.le_of_lt hk)
      have hj : 0 < j := Nat.pos_of_lt_add_right hk
      exact Nat.add_le_add_left (hleast ⟨hj, (p.isBoundary_position_add hj).mp hboundary⟩) _

/-- **Synchronizing stops at the first boundary** after the place where the parser stands, and
stays at an end mark.  It records nothing, and the same is reached by moving on token by token. -/
theorem synchronize_stops_at_first_boundary (p : Parser) :
    p.synchronize.tokens = p.tokens ∧ p.synchronize.errors = p.errors ∧
      (p.tokens[p.position]?.any Token.isEnd = true → p.synchronize.position = p.position) ∧
      (p.tokens[p.position]?.any Token.isEnd = false →
        IsLeast {k | p.position < k ∧ IsBoundary p.tokens k} p.synchronize.position) ∧
      Descent.synchronize.run p.reader = .ok () p.synchronize.reader := by
  have hnext : p.tokens[p.position]?.any Token.isEnd = p.atEnd := by
    rw [p.getElem?_position, Option.any_some, p.isEnd_peek]
  rw [hnext]
  refine ⟨p.tokens_move _, rfl, ?_, isLeast_synchronize, Descent.synchronize_reader p⟩
  intro hend
  have hahead : p.ahead = [] := List.isEmpty_iff.mp hend
  rw [synchronize, move_of_ahead_eq_nil hahead]

end Parser

end LoxCalc
