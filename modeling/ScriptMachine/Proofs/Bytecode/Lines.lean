import Mathlib.Data.List.Induction
import ScriptMachine.Proofs.Bytecode.Building

/-!
# Line tables

Bisection counts the leading entries that pass a test, so in a table that is in order
`LineMark.find?` is the last mark at or before an instruction.  While a function is built, marks
stay in order and none stands behind the next instruction; a step other than a mark leaves the table
alone.  `lines_exact` concludes that an instruction belongs to the line that has been started last
before it was appended.
-/

namespace ScriptMachine

/-! ## Bisection -/

section Bisection

variable {test : Nat → Bool} {total : Nat}

/-- An entry passes only if all entries before it do. -/
def Leading (test : Nat → Bool) (total : Nat) : Prop :=
  ∀ early late, early ≤ late → late < total → test late = true → test early = true

/-- Entries before the one that bisection ends at pass, and entries behind it do not. -/
theorem bisect.narrow_splits (leading : Leading test total) {steps size base : Nat}
    (nonempty : 0 < size) (enough : size ≤ steps) (within : base + size ≤ total)
    (before : ∀ index < base, test index = true)
    (behind : ∀ index, base + size ≤ index → index < total → test index = false) :
    narrow test steps size base < total ∧
      (∀ index < narrow test steps size base, test index = true) ∧
      ∀ index, narrow test steps size base < index → index < total → test index = false := by
  induction steps generalizing size base with
  | zero => exact absurd enough (Nat.not_le_of_lt nonempty)
  | succ steps ih =>
      rw [narrow]
      split
      · obtain rfl : size = 1 := by omega
        exact ⟨by omega, before, behind⟩
      · dsimp only
        by_cases passes : test (base + size / 2) = true
        · rw [if_pos passes]
          refine ih (by omega) (by omega) (by omega) (fun index less => ?_) fun index far => ?_
          · exact leading index _ (Nat.le_of_lt less) (by omega) passes
          · exact behind index (by omega)
        · rw [if_neg passes]
          refine ih (by omega) (by omega) (by omega) before fun index far inside => ?_
          refine Bool.eq_false_iff.mpr fun late => passes ?_
          exact leading _ index (by omega) inside late

/-- Bisection counts the entries that pass. -/
theorem lt_bisect_iff (leading : Leading test total) {index : Nat} (inside : index < total) :
    index < bisect total test ↔ test index = true := by
  obtain ⟨_, before, behind⟩ := bisect.narrow_splits leading (Nat.zero_lt_of_lt inside)
    (Nat.le_refl total) (Nat.le_of_eq (Nat.zero_add total)) (by omega) (by omega)
  rw [bisect, if_neg (Nat.ne_of_gt (Nat.zero_lt_of_lt inside))]
  dsimp only
  rcases Nat.lt_trichotomy index (bisect.narrow test total total 0) with less | rfl | more
  · have passes := before index less
    split <;> exact iff_of_true (by omega) passes
  · split
    · exact iff_of_true (Nat.lt_succ_self _) ‹_›
    · exact iff_of_false (Nat.lt_irrefl _) ‹_›
  · have fails := Bool.eq_false_iff.mp (behind index more inside)
    split <;> exact iff_of_false (by omega) fails

theorem bisect_le (leading : Leading test total) : bisect total test ≤ total := by
  rw [bisect]
  split
  · exact Nat.zero_le _
  · obtain ⟨inside, _⟩ := bisect.narrow_splits leading (Nat.pos_of_ne_zero ‹_›)
      (Nat.le_refl total) (Nat.le_of_eq (Nat.zero_add total)) (by omega) (by omega)
    dsimp only
    split
    · exact inside
    · exact Nat.le_of_lt inside

end Bisection

/-! ## Marks in order -/

namespace LineMark

/-- Every mark starts behind the one before it. -/
def InOrder (marks : List LineMark) : Prop :=
  marks.Pairwise fun early late => early.index < late.index

/-- The line of the last mark at or before an instruction. -/
def last? (marks : List LineMark) (index : Nat) : Option UInt32 :=
  ((marks.filter fun mark => mark.index.toNat ≤ index).getLast?).map line

/-- The mark at a position starts at or before an instruction. -/
def reaches (marks : Array LineMark) (index position : Nat) : Bool :=
  (marks.getD position default).index.toNat ≤ index

theorem reaches_eq (marks : Array LineMark) (index : Nat) {position : Nat}
    (inside : position < marks.size) :
    reaches marks index position = decide (marks.toList[position].index.toNat ≤ index) := by
  rw [reaches, Array.getD_eq_getD_getElem?, Array.getElem?_eq_getElem inside, Option.getD_some]
  rfl

variable {marks : Array LineMark}

theorem leading_reaches (ordered : InOrder marks.toList) (index : Nat) :
    Leading (reaches marks index) marks.size := by
  intro early late less inside reached
  rcases Nat.eq_or_lt_of_le less with rfl | less
  · exact reached
  · rw [reaches_eq marks index inside, decide_eq_true_eq] at reached
    rw [reaches_eq marks index (Nat.lt_trans less inside), decide_eq_true_eq]
    have starts := List.pairwise_iff_getElem.mp ordered early late
      (Nat.lt_trans less inside) inside less
    exact Nat.le_trans (Nat.le_of_lt (UInt32.lt_iff_toNat_lt.mp starts)) reached

/-- Bisection separates the marks at or before an instruction from those behind it. -/
theorem filter_eq_take (ordered : InOrder marks.toList) (index : Nat) :
    marks.toList.filter (fun mark => mark.index.toNat ≤ index) =
      marks.toList.take (bisect marks.size (reaches marks index)) := by
  have leading := leading_reaches ordered index
  generalize counted : bisect marks.size (reaches marks index) = count
  have counts : ∀ {position} (inside : position < marks.size),
      position < count ↔ marks.toList[position].index.toNat ≤ index := by
    intro position inside
    rw [← counted, lt_bisect_iff leading inside, reaches_eq marks index inside, decide_eq_true_eq]
  have front : (marks.toList.take count).filter (fun mark => mark.index.toNat ≤ index) =
      marks.toList.take count := by
    refine List.filter_eq_self.mpr fun mark member => ?_
    obtain ⟨position, inside, rfl⟩ := List.mem_take_iff_getElem.mp member
    have inside := Nat.lt_min.mp inside
    exact decide_eq_true ((counts inside.2).mp inside.1)
  have rest : (marks.toList.drop count).filter (fun mark => mark.index.toNat ≤ index) = [] := by
    refine List.filter_eq_nil_iff.mpr fun mark member => ?_
    obtain ⟨position, inside, rfl⟩ := List.mem_drop_iff_getElem.mp member
    have inside : count + position < marks.size := Nat.add_comm position count ▸ inside
    rw [decide_eq_true_eq, ← counts inside]
    exact Nat.not_lt.mpr (Nat.le_add_right _ _)
  calc
    _ = (marks.toList.take count ++ marks.toList.drop count).filter _ := by
      rw [List.take_append_drop]
    _ = marks.toList.take count := by rw [List.filter_append, front, rest, List.append_nil]

/-- In a table that is in order, bisection finds the last mark at or before an instruction. -/
theorem find?_eq_last? (ordered : InOrder marks.toList) (index : Nat) :
    find? marks index = last? marks.toList index := by
  have most := bisect_le (leading_reaches ordered index)
  have same : (fun position => decide ((marks.getD position default).index.toNat ≤ index)) =
      reaches marks index := rfl
  rw [last?, filter_eq_take ordered index, find?, same]
  cases found : bisect marks.size (reaches marks index) with
  | zero => rfl
  | succ position =>
      rw [found] at most
      rw [List.getLast?_take, if_neg (Nat.succ_ne_zero position), Nat.add_sub_cancel,
        List.getElem?_eq_getElem most, Option.some_or]
      show marks[position]?.map line = _
      rw [Array.getElem?_eq_getElem most]
      rfl

/-! ## Starting a line -/

/-- The table with one more line, which replaces one that starts at the same instruction. -/
def started (marks : Array LineMark) (line start : UInt32) : Array LineMark :=
  match marks.back? with
  | some last =>
    if last.index = start then marks.pop.push ⟨line, start⟩ else marks.push ⟨line, start⟩
  | none => marks.push ⟨line, start⟩

variable {number start : UInt32}

theorem toList_started (ordered : InOrder marks.toList)
    (placed : ∀ other ∈ marks.toList, other.index ≤ start) :
    (started marks number start).toList =
      marks.toList.filter (·.index < start) ++ [⟨number, start⟩] := by
  rw [started]
  cases found : marks.back? with
  | none =>
      obtain rfl : marks = #[] := Array.back?_eq_none_iff.mp found
      rfl
  | some last =>
      obtain ⟨front, rfl⟩ := Array.back?_eq_some_iff.mp found
      rw [Array.toList_push] at ordered placed ⊢
      have latest := placed last (List.mem_append_right _ (List.mem_singleton_self last))
      have kept : front.toList.filter (·.index < start) = front.toList := by
        refine List.filter_eq_self.mpr fun other member => decide_eq_true ?_
        exact UInt32.lt_of_lt_of_le ((List.pairwise_append.mp ordered).2.2 other member last
          (List.mem_singleton_self last)) latest
      rw [List.filter_append, kept, List.filter_singleton]
      dsimp only
      by_cases same : last.index = start
      · rw [if_pos same, decide_eq_false (same ▸ UInt32.lt_irrefl _)]
        simp
      · rw [if_neg same, decide_eq_true (UInt32.lt_of_le_of_ne latest same)]
        simp

theorem inOrder_started (ordered : InOrder marks.toList)
    (placed : ∀ other ∈ marks.toList, other.index ≤ start) :
    InOrder (started marks number start).toList := by
  rw [toList_started ordered placed]
  refine List.pairwise_append.mpr ⟨ordered.filter _, List.pairwise_singleton _ _, ?_⟩
  intro early member late last
  obtain rfl := List.mem_singleton.mp last
  exact of_decide_eq_true (List.mem_filter.mp member).2

/-- Starting a line leaves the instructions before it alone. -/
theorem last?_started_of_lt (ordered : InOrder marks.toList)
    (placed : ∀ other ∈ marks.toList, other.index ≤ start) {index : Nat}
    (less : index < start.toNat) :
    last? (started marks number start).toList index = last? marks.toList index := by
  have new : [(⟨number, start⟩ : LineMark)].filter (fun mark => mark.index.toNat ≤ index) = [] :=
    List.filter_eq_nil_iff.mpr (by simpa using less)
  rw [last?, last?, toList_started ordered placed, List.filter_append, new, List.append_nil,
    List.filter_filter]
  congr 3
  funext other
  rw [← Bool.decide_and]
  exact decide_eq_decide.mpr (and_iff_left_of_imp fun reached =>
    UInt32.lt_iff_toNat_lt.mpr (Nat.lt_of_le_of_lt reached less))

/-- The instruction that a line starts at belongs to it. -/
theorem last?_started (ordered : InOrder marks.toList)
    (placed : ∀ other ∈ marks.toList, other.index ≤ start) :
    last? (started marks number start).toList start.toNat = some number := by
  rw [last?, toList_started ordered placed, List.filter_append, List.filter_singleton,
    decide_eq_true (Nat.le_refl _)]
  simp

end LineMark

/-- The line that a step starts. -/
def BuildStep.line? : BuildStep → Option UInt32
  | .line number => some number
  | _ => none

namespace Builder

open LineMark

/-! ## What steps do to the table -/

theorem lines_foldl_roomFor (registers : List UInt8) (prototype : Prototype) :
    (registers.foldl roomFor prototype).lines = prototype.lines := by
  induction registers generalizing prototype with
  | nil => rfl
  | cons register rest ih =>
      rw [List.foldl_cons, ih, roomFor_eq]
      split <;> rfl

theorem lines_pool (value : Option Literal) (prototype : Prototype) :
    (pool value prototype).2.lines = prototype.lines := by
  cases value with
  | none => rfl
  | some value =>
      rcases addLiteral_cases value prototype with ⟨_, _, same⟩ | ⟨_, same⟩ <;> rw [pool, same]

/-- A step that starts no line leaves the table alone. -/
theorem lines_next {step : BuildStep} (unmarked : step.line? = none) (prototype : Prototype) :
    (next prototype step).lines = prototype.lines := by
  have parameter : ∀ (name : String) (prototype : Prototype),
      (addParameter name prototype).2.lines = prototype.lines := fun name prototype =>
    lines_foldl_roomFor [_] { prototype with parameters := prototype.parameters.push name }
  cases emits : step.emission? with
  | some emission =>
      rw [next_eq_emitted emits]
      exact (lines_pool _ _).trans (lines_foldl_roomFor _ _)
  | none =>
      cases step with
      | param name => exact parameter name prototype
      | varparams => exact parameter "vargv" { prototype with isVariadic := true }
      | literal value => exact lines_pool (some value) prototype
      | line number => exact absurd unmarked (Option.some_ne_none _)
      | source | stackSize | generator | function | outerLocal | outerOuter | outerSymbol | pos
      | patchJump => rfl
      | _ => cases emits

theorem markLine_eq (number : UInt32) (prototype : Prototype) :
    (markLine number prototype).2 =
      { prototype with
        lines := started prototype.lines number (UInt32.ofNat prototype.code.size) } := by
  simp only [markLine, modify, modifyGet, MonadStateOf.modifyGet, StateT.modifyGet, started]
  cases prototype.lines.back? with
  | none => rfl
  | some last =>
      by_cases same : last.index = UInt32.ofNat prototype.code.size
      · simp only [if_pos same]
        rfl
      · simp only [if_neg same]
        rfl

/-- The marks of a function that is being built are in order, and none is behind the next
instruction. -/
structure Marked (prototype : Prototype) : Prop where
  /-- The order. -/
  ordered : InOrder prototype.lines.toList
  /-- The last place. -/
  placed : ∀ mark ∈ prototype.lines.toList, mark.index.toNat ≤ prototype.code.size

namespace Marked

variable {prototype : Prototype} (marked : Marked prototype)
  (short : prototype.code.size < 2 ^ 32)

include marked short

theorem before_next :
    ∀ other ∈ prototype.lines.toList, other.index ≤ UInt32.ofNat prototype.code.size := by
  intro other member
  rw [UInt32.le_iff_toNat_le, UInt32.toNat_ofNat_of_lt' short]
  exact marked.placed other member

theorem next (step : BuildStep) : Marked (next prototype step) := by
  have grows := (Grows.next prototype step).code
  cases starts : step.line? with
  | none =>
      have same := lines_next starts prototype
      exact ⟨same ▸ marked.ordered, fun mark member =>
        Nat.le_trans (marked.placed mark (same ▸ member)) grows⟩
  | some number =>
      cases step with
      | line number =>
          have before := marked.before_next short
          have same : Builder.next prototype (.line number) = _ := markLine_eq number prototype
          rw [same]
          refine ⟨inOrder_started marked.ordered before, fun mark member => ?_⟩
          rw [toList_started marked.ordered before] at member
          rcases List.mem_append.mp member with earlier | last
          · exact marked.placed mark (List.mem_filter.mp earlier).1
          · obtain rfl := List.mem_singleton.mp last
            exact Nat.le_of_eq (UInt32.toNat_ofNat_of_lt' short)
      | _ => cases starts

/-- A step does not change the line of an instruction that is there. -/
theorem last?_next_of_lt (step : BuildStep) {index : Nat} (inside : index < prototype.code.size) :
    last? (Builder.next prototype step).lines.toList index =
      last? prototype.lines.toList index := by
  cases starts : step.line? with
  | none => rw [lines_next starts]
  | some number =>
      cases step with
      | line number =>
          have same : Builder.next prototype (.line number) = _ := markLine_eq number prototype
          rw [same]
          exact last?_started_of_lt marked.ordered (marked.before_next short)
            ((UInt32.toNat_ofNat_of_lt' short).symm ▸ inside)
      | _ => cases starts

/-- The next instruction belongs to the line that has been started last. -/
theorem last?_next (step : BuildStep) :
    last? (Builder.next prototype step).lines.toList (Builder.next prototype step).code.size =
      step.line?.or (last? prototype.lines.toList prototype.code.size) := by
  cases starts : step.line? with
  | none =>
      rw [lines_next starts, Option.none_or, last?, last?]
      have grows := (Grows.next prototype step).code
      congr 2
      refine List.filter_congr fun mark member => ?_
      have placed := marked.placed mark member
      exact decide_eq_decide.mpr (iff_of_true (Nat.le_trans placed grows) placed)
  | some number =>
      cases step with
      | line number =>
          cases starts
          have same : Builder.next prototype (.line number) = _ := markLine_eq number prototype
          rw [same, Option.some_or]
          have reached : last? (started prototype.lines number _).toList _ = some number :=
            last?_started marked.ordered (marked.before_next short)
          rwa [UInt32.toNat_ofNat_of_lt' short] at reached
      | _ => cases starts

end Marked

/-! ## What is built -/

/-- An instruction keeps its line, and the next one belongs to the line that has been started last,
however many steps there are. -/
theorem Marked.foldl {prototype : Prototype} (marked : Marked prototype) (steps : List BuildStep)
    (short : (steps.foldl Builder.next prototype).code.size < 2 ^ 32) :
    Marked (steps.foldl Builder.next prototype) ∧
      (∀ index < prototype.code.size,
        last? (steps.foldl Builder.next prototype).lines.toList index =
          last? prototype.lines.toList index) ∧
      last? (steps.foldl Builder.next prototype).lines.toList
          (steps.foldl Builder.next prototype).code.size =
        (steps.filterMap BuildStep.line?).getLast?.or
          (last? prototype.lines.toList prototype.code.size) := by
  induction steps generalizing prototype with
  | nil => exact ⟨marked, fun _ _ => rfl, rfl⟩
  | cons step rest ih =>
      have grows := (Grows.next prototype step).code
      have before : prototype.code.size < 2 ^ 32 :=
        Nat.lt_of_le_of_lt (grows_foldl (step :: rest) prototype).code short
      obtain ⟨later, kept, reached⟩ := ih (marked.next before step) short
      refine ⟨later, fun index inside => ?_, ?_⟩
      · exact (kept index (Nat.lt_of_lt_of_le inside grows)).trans
          (marked.last?_next_of_lt before step inside)
      · have latest : ((step :: rest).filterMap BuildStep.line?).getLast? =
            (rest.filterMap BuildStep.line?).getLast?.or step.line? := by
          rw [List.filterMap_cons]
          cases step.line? with
          | none => rw [Option.or_none]
          | some number => rw [List.getLast?_cons, Option.or_some]
        rw [List.foldl_cons, reached, marked.last?_next before step, ← Option.or_assoc, latest]

variable {name : String} {steps front rest : List BuildStep}

theorem marked_built (short : (built name steps).code.size < 2 ^ 32) :
    Marked (built name steps) ∧
      last? (built name steps).lines.toList (built name steps).code.size =
        (steps.filterMap BuildStep.line?).getLast? := by
  have empty : Marked { name } := ⟨.nil, fun _ member => by cases member⟩
  obtain ⟨marked, _, reached⟩ := empty.foldl steps short
  exact ⟨marked, reached.trans Option.or_none⟩

theorem last?_built_append (short : (built name (front ++ rest)).code.size < 2 ^ 32) {index : Nat}
    (inside : index < (built name front).code.size) :
    last? (built name (front ++ rest)).lines.toList index =
      last? (built name front).lines.toList index := by
  have split : built name (front ++ rest) = rest.foldl next (built name front) :=
    List.foldl_append
  rw [split] at short ⊢
  have before := Nat.lt_of_le_of_lt (grows_foldl rest (built name front)).code short
  exact ((marked_built before).1.foldl rest short).2.1 index inside

/-- A step appends one instruction or none. -/
theorem size_next_le (prototype : Prototype) (step : BuildStep) :
    (next prototype step).code.size ≤ prototype.code.size + 1 := by
  cases emits : step.emission? with
  | some emission =>
      refine Nat.le_of_eq ?_
      rw [next_eq_emitted emits, code_emitted, Array.size_push]
  | none =>
      cases patches : step.patches? with
      | none =>
          rw [code_next emits patches]
          exact Nat.le_succ _
      | some index =>
          rw [code_next_patch patches, Array.size_modify]
          exact Nat.le_succ _

/-- A step that starts a line appends nothing. -/
theorem size_next_of_line {step : BuildStep} (starts : step.line? ≠ none) (prototype : Prototype) :
    (next prototype step).code.size = prototype.code.size := by
  cases step with
  | line number => exact congrArg (·.code.size) (markLine_eq number prototype)
  | _ => exact absurd rfl starts

/-- Every instruction is appended by some step. -/
theorem exists_appending {index : Nat} (inside : index < (built name steps).code.size) :
    ∃ front step rest, steps = front ++ step :: rest ∧
      (built name front).code.size = index ∧
      (built name (front ++ [step])).code.size = index + 1 := by
  induction steps using List.reverseRecOn with
  | nil => exact absurd inside (Nat.not_lt_zero index)
  | append_singleton steps last ih =>
      by_cases earlier : index < (built name steps).code.size
      · obtain ⟨front, step, rest, split, start, stop⟩ := ih earlier
        exact ⟨front, step, rest ++ [last], by rw [split]; simp, start, stop⟩
      · have most := size_next_le (built name steps) last
        rw [← built_concat] at most
        exact ⟨steps, last, [], rfl, by omega, by omega⟩

/-- In what is built the marks are in order, and the line that is found for an instruction is the
one that has been started last before the step that appended the instruction. -/
theorem lines_exact (name : String) (steps : List BuildStep)
    (short : (run name steps).1.code.size < 2 ^ 32) :
    InOrder (run name steps).1.lines.toList ∧
      ∀ index < (run name steps).1.code.size, ∃ front step rest,
        steps = front ++ step :: rest ∧ (run name front).1.code.size = index ∧
        (run name (front ++ [step])).1.code.size = index + 1 ∧
        (run name steps).1.lineFor? index = (front.filterMap BuildStep.line?).getLast? := by
  have lines : (run name steps).1.lines = (built name steps).lines := by
    rw [fst_run]
    rfl
  rw [code_run] at short
  have ordered := (marked_built short).1.ordered
  rw [lines, code_run]
  refine ⟨ordered, fun index inside => ?_⟩
  obtain ⟨front, step, rest, split, start, stop⟩ := exists_appending inside
  refine ⟨front, step, rest, split, code_run ▸ start, code_run ▸ stop, ?_⟩
  have onward : steps = front ++ [step] ++ rest := by
    rw [split, List.append_assoc, List.singleton_append]
  have unmarked : step.line? = none := by
    by_contra starts
    have same := size_next_of_line starts (built name front)
    rw [← built_concat] at same
    omega
  calc
    (run name steps).1.lineFor? index
      = last? (built name steps).lines.toList index := by
        rw [Prototype.lineFor?, lines, find?_eq_last? ordered]
    _ = last? (built name (front ++ [step])).lines.toList index := by
        rw [onward] at short ⊢
        exact last?_built_append short (by omega)
    _ = last? (built name front).lines.toList (built name front).code.size := by
        rw [built_concat, lines_next unmarked, start]
    _ = (front.filterMap BuildStep.line?).getLast? := (marked_built (by omega)).2

/-- Steps with lines that are started twice, before the first instruction or after the last one. -/
def marking : List BuildStep :=
  [.retNull, .line 1, .line 2, .jz 0, .loadInt 1 7, .line 3, .patchJump 1, .ret 1, .line 9]

theorem lines_exact_marking :
    (run "f" marking).1.code.size < 2 ^ 32 ∧
      InOrder (run "f" marking).1.lines.toList ∧
      ∀ index < (run "f" marking).1.code.size, ∃ front step rest,
        marking = front ++ step :: rest ∧ (run "f" front).1.code.size = index ∧
        (run "f" (front ++ [step])).1.code.size = index + 1 ∧
        (run "f" marking).1.lineFor? index = (front.filterMap BuildStep.line?).getLast? := by
  have short : (run "f" marking).1.code.size < 2 ^ 32 := by decide
  exact ⟨short, lines_exact "f" marking short⟩

end Builder

end ScriptMachine
