import Tlibc.Native.Basic
import Tlibc.Spec.Eval

/-!
# How far the cursor of `eval` gets

Any string may be passed, not only a line of the grammar. The caller of `eval_recur`
advances the cursor behind a bracket whether or not a character is left.

* `eval_contained`: without a division `eval` always ends, and it stays in front of the
  NUL exactly when the brackets that it opens are closed with a character to spare
-/

namespace Tlibc.Eval

variable {fuel : Nat} {expr rest used : List UInt8} {ret cur v : Int64} {op : Oper} {c : UInt8}

/-- Characters in which every opening bracket has its closing one, and every closing
    bracket a character behind it, which may be anything and is skipped. -/
inductive Closed : List UInt8 → Prop where
  | nil : Closed []
  | char {c : UInt8} {cs : List UInt8} (hclose : c ≠ closeBracket) (hopen : c ≠ openBracket)
      (hcs : Closed cs) : Closed (c :: cs)
  | bracket {inner cs : List UInt8} (d : UInt8) (hinner : Closed inner) (hcs : Closed cs) :
      Closed (openBracket :: inner ++ closeBracket :: d :: cs)

/-- The characters up to the NUL, or up to a bracket that closes none. -/
def Closes (expr : List UInt8) : Prop :=
  Closed expr ∨ ∃ used rest, expr = used ++ closeBracket :: rest ∧ Closed used

/-! ## What is read -/

/-- A call that returns has read closed characters, up to the NUL or to the bracket in
    front of the cursor. -/
private theorem evalRecur_closed (h : evalRecur fuel expr ret cur op = .ok (v, rest)) :
    (rest = [] ∧ Closed expr) ∨ ∃ used, expr = used ++ closeBracket :: rest ∧ Closed used := by
  induction fuel generalizing expr ret cur op v rest with
  | zero => cases h
  | succ fuel ih =>
    cases expr with
    | nil =>
      cases h
      exact .inl ⟨rfl, .nil⟩
    | cons c expr =>
      rcases char_cases c with hdigit | rfl | rfl | ⟨hdigit, hclose, hopen⟩
      · rw [evalRecur_digit hdigit] at h
        obtain ⟨hclose, hopen⟩ := isDigit_ne hdigit
        rcases ih h with ⟨hrest, hexpr⟩ | ⟨used, rfl, hused⟩
        · exact .inl ⟨hrest, hexpr.char hclose hopen⟩
        · exact .inr ⟨c :: used, rfl, hused.char hclose hopen⟩
      · -- the call ends here, with the cursor behind the bracket
        rw [evalRecur_close] at h
        obtain ⟨r, -, h⟩ := Run.bind_eq_ok.mp h
        cases h
        exact .inr ⟨[], rfl, .nil⟩
      · rw [evalRecur_open] at h
        obtain ⟨⟨w, behind⟩, hinner, hafter⟩ := Run.bind_eq_ok.mp h
        obtain ⟨s, -, hloop⟩ := Run.bind_eq_ok.mp hafter
        cases behind with
        | nil => cases hloop
        | cons d behind =>
          -- the inner call stopped at a bracket, as there is a character behind it
          rcases ih hinner with ⟨hnil, -⟩ | ⟨inner, rfl, hclosed⟩
          · cases hnil
          · rcases ih hloop with ⟨hrest, hbehind⟩ | ⟨used, rfl, hused⟩
            · exact .inl ⟨hrest, hclosed.bracket d hbehind⟩
            · refine .inr ⟨openBracket :: inner ++ closeBracket :: d :: used, ?_,
                hclosed.bracket d hused⟩
              rw [List.append_assoc, List.cons_append]
              rfl
      · rw [evalRecur_other hdigit hclose hopen] at h
        obtain ⟨r, -, h⟩ := Run.bind_eq_ok.mp h
        rcases ih h with ⟨hrest, hexpr⟩ | ⟨used, rfl, hused⟩
        · exact .inl ⟨hrest, hexpr.char hclose hopen⟩
        · exact .inr ⟨c :: used, rfl, hused.char hclose hopen⟩

/-! ## Runs over closed characters -/

/-- Only a division can fault. -/
private theorem combine_ok (h : op ≠ .div) (left right : Int64) :
    ∃ x, combine op left right = .ok x := by
  cases op with
  | div => exact absurd rfl h
  | null => exact ⟨right, rfl⟩
  | plus => exact ⟨left + right, rfl⟩
  | sub => exact ⟨left - right, rfl⟩
  | mult => exact ⟨left * right, rfl⟩

/-- Without a `/` there is no division. -/
private theorem nextOper_ne_div (hc : c ≠ slash) (hop : op ≠ .div) : nextOper c op ≠ .div := by
  rw [nextOper]
  split_ifs <;> simp_all

/-- A closing bracket ends the call, unless a division is pending. -/
private theorem evalFrom_close_ok (h : op ≠ .div) :
    ∃ x, evalFrom (closeBracket :: expr) ret cur op = .ok (x, expr) := by
  obtain ⟨x, hx⟩ := combine_ok h ret cur
  exact ⟨x, by rw [evalFrom_close, evalSimple_eq, hx]; rfl⟩

/-- The loop gets to the end of closed characters, and still divides nothing. -/
private theorem Closed.run {cs : List UInt8} (hcs : Closed cs) (hslash : slash ∉ cs)
    (hop : op ≠ .div)
    (ret cur : Int64) (rest : List UInt8) : ∃ ret' cur' op', op' ≠ .div ∧
      evalFrom (cs ++ rest) ret cur op = evalFrom rest ret' cur' op' := by
  induction hcs generalizing ret cur op rest with
  | nil => exact ⟨ret, cur, op, hop, rfl⟩
  | @char c cs hclose hopen hcs ih =>
    have hc : c ≠ slash := fun heq => hslash (heq ▸ List.mem_cons_self)
    have htail : slash ∉ cs := fun hmem => hslash (List.mem_cons_of_mem _ hmem)
    rw [List.cons_append]
    cases hdigit : isDigit c with
    | true =>
      rw [evalFrom_digit hdigit]
      exact ih htail hop _ _ rest
    | false =>
      obtain ⟨x, hx⟩ := combine_ok hop ret cur
      rw [evalFrom_ends hdigit hclose hopen, hx, Run.ok_bind]
      exact ih htail (nextOper_ne_div hc hop) _ _ rest
  | @bracket inner cs d hinner hcs ihinner ihcs =>
    have hslashInner : slash ∉ inner := fun hmem =>
      hslash (List.mem_append_left _ (List.mem_cons_of_mem _ hmem))
    have hslashCs : slash ∉ cs := fun hmem =>
      hslash (List.mem_append_right _ (List.mem_cons_of_mem _ (List.mem_cons_of_mem _ hmem)))
    have hsplit : openBracket :: inner ++ closeBracket :: d :: cs ++ rest =
        openBracket :: (inner ++ closeBracket :: d :: (cs ++ rest)) := by
      rw [List.append_assoc]
      rfl
    -- the inner call reads the bracket, and the character behind it is skipped
    obtain ⟨ret', cur', op', hop', hrun⟩ :=
      ihinner hslashInner (show Oper.null ≠ .div by decide) 0 0 (closeBracket :: d :: (cs ++ rest))
    obtain ⟨y, hy⟩ := @evalFrom_close_ok (d :: (cs ++ rest)) ret' cur' op' hop'
    obtain ⟨x, hx⟩ := combine_ok hop ret y
    rw [hsplit, evalFrom_open (hrun.trans hy), evalSimple_eq, hx, Run.ok_bind, Run.ok_bind]
    exact ihcs hslashCs hop _ _ rest

/-- A string that closes its own brackets only is read to its end, without a division. -/
private theorem Closed.returns (hused : Closed used) (hslash : slash ∉ used)
    (hrest : rest = [] ∨ ∃ cs, rest = closeBracket :: cs) :
    ∃ r, evalFrom (used ++ rest) 0 0 .null = .ok r := by
  obtain ⟨ret', cur', op', hop', hrun⟩ :=
    hused.run hslash (show Oper.null ≠ .div by decide) 0 0 rest
  rw [hrun]
  rcases hrest with rfl | ⟨cs, rfl⟩
  · exact ⟨(ret', []), rfl⟩
  · obtain ⟨x, hx⟩ := @evalFrom_close_ok cs ret' cur' op' hop'
    exact ⟨(x, cs), hx⟩

/-- Fuel for every character is enough, whatever they are. -/
private theorem evalRecur_ne_diverges (h : expr.length < fuel) :
    evalRecur fuel expr ret cur op ≠ .error .diverges := by
  have hsimple : ∀ left right op, evalSimple left right op ≠ .error .diverges := by
    intro left right op
    cases op with
    | div =>
      refine Run.bind_ne_error ?_ fun _ => Run.ok_ne_error
      exact Run.ite_ne_error (Run.error_ne_error (by decide)) Run.ok_ne_error
    | _ => exact Run.ok_ne_error
  induction fuel generalizing expr ret cur op with
  | zero => omega
  | succ fuel ih =>
    cases expr with
    | nil => exact Run.ok_ne_error
    | cons c expr =>
      rw [List.length_cons] at h
      rcases char_cases c with hdigit | rfl | rfl | ⟨hdigit, hclose, hopen⟩
      · rw [evalRecur_digit hdigit]
        exact ih (by omega)
      · rw [evalRecur_close]
        exact Run.bind_ne_error (hsimple _ _ _) fun _ => Run.ok_ne_error
      · rw [evalRecur_open]
        cases hinner : evalRecur fuel expr 0 0 .null with
        | error f =>
          rw [Run.error_bind]
          intro heq
          exact ih (by omega) (hinner.trans heq)
        | ok r =>
          -- the fuel of the inner call is enough for what it leaves
          obtain ⟨w, behind⟩ := r
          have hle := evalRecur_length hinner
          rw [Run.ok_bind, afterBracket]
          refine Run.bind_ne_error (hsimple _ _ _) fun s => ?_
          cases behind with
          | nil => exact Run.error_ne_error (by decide)
          | cons d behind =>
            rw [List.length_cons] at hle
            exact ih (by omega)
      · rw [evalRecur_other hdigit hclose hopen]
        exact Run.bind_ne_error (hsimple _ _ _) fun r => ih (by omega)

/-- A string without a division: `eval` ends, and it returns, its cursor never beyond
    the NUL, exactly when what it reads is closed. -/
theorem eval_contained (s : CString) (hslash : slash ∉ s.chars) :
    eval s.chars ≠ .error .diverges ∧ ((∃ v, eval s.chars = .ok v) ↔ Closes s.chars) := by
  refine ⟨Run.bind_ne_error (evalRecur_ne_diverges (Nat.lt_succ_self _)) fun _ => Run.ok_ne_error,
    ?_, ?_⟩
  · intro ⟨v, h⟩
    obtain ⟨⟨w, rest⟩, hrecur, -⟩ := Run.bind_eq_ok.mp h
    rcases evalRecur_closed hrecur with ⟨-, hclosed⟩ | ⟨used, hused, hclosed⟩
    · exact .inl hclosed
    · exact .inr ⟨used, rest, hused, hclosed⟩
  · intro h
    have hreturns : ∃ r, evalFrom s.chars 0 0 .null = .ok r := by
      rcases h with hclosed | ⟨used, rest, hused, hclosed⟩
      · have hret := hclosed.returns hslash (.inl rfl)
        rwa [List.append_nil] at hret
      · rw [hused] at hslash ⊢
        exact hclosed.returns (fun hmem => hslash (List.mem_append_left _ hmem)) (.inr ⟨rest, rfl⟩)
    obtain ⟨r, hr⟩ := hreturns
    exact ⟨r.1, Run.bind_eq_ok.mpr ⟨r, hr, rfl⟩⟩

/-- `(1)+2` and the newline -/
def bracketLine : CString := ⟨[0x28, 0x31, 0x29, 0x2b, 0x32, 0x0a], by decide⟩

/-- Its brackets are closed, so it is read to its end. -/
theorem eval_bracketLine : ∃ v, eval bracketLine.chars = .ok v :=
  (eval_contained bracketLine (by decide)).2.mpr
    (.inl (.bracket 0x2b (.char (by decide) (by decide) .nil)
      (.char (by decide) (by decide) (.char (by decide) (by decide) .nil))))

/-- Of `(1` and the newline the bracket is read up to the NUL, and the caller goes on
    behind it. -/
theorem overrunLine_fails : ¬ ∀ s : CString, slash ∉ s.chars → eval s.chars ≠ .error .pastEnd :=
  fun h => h ⟨[0x28, 0x31, 0x0a], by decide⟩ (by decide) (by decide)

end Tlibc.Eval
