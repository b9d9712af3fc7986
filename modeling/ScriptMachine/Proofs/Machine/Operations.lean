import ScriptMachine.Machine.Dispatch

/-!
# Operations on values

`Engine.Operates` describes computations that look at the machine, create and change objects that
cannot be run, fail with faults that say nothing about the code, and run script code only through
calls that wait for their result.  Slots, operators, iteration and sorting are such operations.
Whatever holds of the few ways in which operations are put together holds of all of them.
-/

namespace ScriptMachine

variable {α β : Type}

/-! ## Faults -/

namespace Fault

/-- The fault says that the code itself is not in order. -/
def isStructural : Fault → Bool
  | .noFrame | .literalRange _ | .functionRange _ | .outerRange _ _ | .outerIndex _
  | .jumpOutside _ _ | .trapHandler _ | .bitwiseCode _ | .comparisonCode _ | .appendCode _
  | .objectCode _ => true
  | _ => false

/-- The fault says that a register has no byte number. -/
def exceedsBytes : Fault → Bool
  | .captureRegister _ | .iterationRegisters _ => true
  | _ => false

/-- The fault says nothing about the code. -/
def isPlain (fault : Fault) : Bool := !fault.isStructural && !fault.exceedsBytes

end Fault

/-! ## Plain results -/

/-- A pure operation fails, if it does, with a fault that says nothing about the code. -/
def Plain : Except Fault α → Prop
  | .ok _ => True
  | .error fault => fault.isPlain = true

@[simp]
theorem plain_ok (value : α) : Plain (.ok value) := trivial

@[simp]
theorem plain_error (fault : Fault) :
    Plain (.error fault : Except Fault α) ↔ fault.isPlain = true :=
  Iff.rfl

theorem Plain.bind {result : Except Fault α} {following : α → Except Fault β} (plain : Plain result)
    (further : ∀ value, Plain (following value)) : Plain (result >>= following) := by
  cases result with
  | ok value => exact further value
  | error fault => exact plain

theorem Value.plain_arrayIndex (key : Value) : Plain key.arrayIndex := by
  cases key with
  | integer | float => trivial
  | _ => exact rfl

theorem Value.plain_byteAt (bytes : ByteArray) (key : Value) : Plain (key.byteAt bytes) := by
  cases key with
  | integer index =>
      rw [byteAt]
      split
      · split
        · trivial
        · rfl
      · rfl
  | _ => exact rfl

theorem Value.plain_checkKey (key : Value) : Plain key.checkKey := by
  cases key with
  | null => exact rfl
  | float value =>
      rw [checkKey]
      split
      · rfl
      · trivial
  | _ => trivial

/-- Values of different types are compared as numbers. -/
theorem Value.plain_numbers (left right : Value) :
    Plain (match left.toFloat?, right.toFloat? with
      | some a, some b => .ok ((a.compare? b).getD .lt)
      | _, _ => .error (.comparison left.typeName right.typeName)) := by
  split
  · trivial
  · rfl

theorem Value.plain_order (left right : Value) : Plain (left.order right) := by
  have mixed := plain_numbers left right
  cases left with
  | integer =>
      cases right with
      | integer => trivial
      | _ => exact mixed
  | string =>
      cases right with
      | string => trivial
      | _ => exact mixed
  | bool =>
      cases right with
      | bool => trivial
      | _ => exact mixed
  | null =>
      cases right with
      | null => trivial
      | _ => exact mixed
  | _ => exact mixed

theorem Sequence.plain_position (sequence : Sequence) (index : Int64) :
    Plain (sequence.position index) := by
  rw [position]
  split
  · trivial
  · rfl

theorem Sequence.plain_get (sequence : Sequence) (index : Int64) : Plain (sequence.get index) :=
  (sequence.plain_position index).bind fun _ => trivial

theorem Sequence.plain_top (sequence : Sequence) : Plain sequence.top := by
  rw [top]
  split
  · trivial
  · rfl

theorem Class.plain_newSlot (cls : Class) (key value : Value) : Plain (cls.newSlot key value) := by
  rw [newSlot]
  split
  · rfl
  · refine key.plain_checkKey.bind fun _ => ?_
    split <;> trivial

theorem ArithOp.plain_onIntegers (op : ArithOp) (left right : Int64) :
    Plain (op.onIntegers left right) := by
  cases op with
  | add | sub | mul => trivial
  | div | mod =>
      rw [onIntegers]
      split
      · rfl
      · trivial

theorem BitOp.plain_onValues (op : BitOp) (left right : Value) :
    Plain (op.onValues left right) := by
  rw [onValues.eq_def]
  split
  · trivial
  · rfl

theorem Native.plain_checkTypes (name : String) (position : Nat) (values : List Value)
    (groups : List UInt32) : Plain (Native.checkTypes name position values groups) := by
  induction values generalizing position groups with
  | nil => trivial
  | cons value values ih =>
      cases groups with
      | nil => trivial
      | cons group groups =>
          rw [checkTypes]
          split
          · exact ih (position + 1) groups
          · rfl

theorem Native.plain_checkArguments (native : Native) (arguments : List Value) :
    Plain (native.checkArguments arguments) := by
  rw [checkArguments]
  split
  · exact plain_checkTypes _ _ _ _
  · rfl

theorem Value.plain_position (cursor : Value) : Plain cursor.position := by
  cases cursor with
  | null => exact plain_ok 0
  | integer number =>
      rw [position]
      split
      · exact (plain_error _).mpr rfl
      · exact plain_ok _
  | _ => exact (plain_error _).mpr rfl

/-! ## Classes -/

namespace Exec

/-- The class in a register that a new class is derived from, if the instruction names a
register. -/
def baseClass (access : Access) (instruction : Instruction) : Exec (Option (Ref .cls)) :=
  if instruction.wide.toInt < 0 then pure none
  else do
    match ← access.readWide instruction.wide with
    | .cls ref => return some ref
    | other => raise (.inheritance other.typeName)

/-- A new class, derived from another one if there is one, which is told of it by its hook. -/
def deriveClass (engine : Engine) (base : Option (Ref .cls)) : Exec Value := do
  let cls ← modifyGet fun machine =>
    let (cls, heap) := machine.heap.allocClass base
    (Value.cls cls, { machine with heap })
  if let some ref := base then
    let parent : Class ← read ref
    if let some handler := parent.hook? .inherited then
      discard (engine.callSync handler cls [])
  return cls

theorem newClass_eq (access : Access) (engine : Engine) (instruction : Instruction) :
    newClass access engine instruction =
      (do deriveClass engine (← baseClass access instruction)) := by
  delta newClass
  extract_lets create
  have creates : create = deriveClass engine := rfl
  rw [creates, baseClass]
  split
  · rfl
  · rw [bind_assoc]
    refine bind_congr fun value => ?_
    cases value with
    | _ => rfl

end Exec

/-! ## Operations -/

/-- Objects of the kind keep nothing that could be run later. -/
def Kind.isInert : Kind → Bool
  | .closure | .generator | .thread => false
  | .table | .array | .cell | .native | .cls | .inst | .userdata => true

/-- Only objects that cannot be run have been created or changed. -/
inductive Heap.Inert (before : Heap) : Heap → Prop
  | refl : Inert before before
  | alloc {after : Heap} {kind : Kind} (content : Content kind) (inert : kind.isInert = true) :
      Inert before after → Inert before (after.alloc content).2
  | modify {after : Heap} {kind : Kind} (ref : Ref kind) (change : Content kind → Content kind)
      (inert : kind.isInert = true) : Inert before after → Inert before (after.modify ref change)

theorem Heap.inert_instantiate (heap : Heap) (ref : Ref .cls) :
    heap.Inert (heap.instantiate ref).2 := by
  have locked : ∀ (line : List (Ref .cls)) (after : Heap), heap.Inert after →
      heap.Inert (line.foldl (fun (locked : Heap) (cls : Ref .cls) =>
        locked.modify cls fun own => { own with locked := true }) after) := by
    intro line
    induction line with
    | nil => exact fun after inert => inert
    | cons cls rest ih => exact fun after inert => ih _ (.modify cls _ rfl inert)
  exact .alloc _ rfl (locked _ heap .refl)

/-- The computation that exchanges the objects and gives a result, or fails. -/
def Exec.exchange (result : Machine → Except Fault (α × Heap)) : Exec α := fun machine =>
  match result machine with
  | .ok (value, heap) => .ok value { machine with heap }
  | .error fault => raise fault machine

/-- Computations that run script code only through calls that wait for their result. -/
inductive Engine.Operates (engine : Engine) : {α : Type} → Exec α → Prop
  | change {α : Type} (result : Machine → Except Fault (α × Heap))
      (plain : ∀ machine, Plain (result machine))
      (inert : ∀ machine value heap, result machine = .ok (value, heap) →
        machine.heap.Inert heap) :
      Operates engine (Exec.exchange result)
  | bind {α β : Type} {action : Exec α} {following : α → Exec β} :
      Operates engine action → (∀ value, Operates engine (following value)) →
      Operates engine (action >>= following)
  | keeping {α : Type} {action : Exec α} (indices : List Nat) :
      Operates engine action → Operates engine (Exec.keeping indices action)
  | callSync (callee this : Value) (arguments : List Value) :
      Operates engine (engine.callSync callee this arguments)

/-- Operations may look at all of the machine. -/
theorem Engine.Operates.view {engine : Engine} (look : Machine → α) :
    engine.Operates fun machine => .ok (look machine) machine := by
  refine change (fun machine => .ok (look machine, machine.heap)) (fun _ => plain_ok _) ?_
  intro machine value heap same
  obtain ⟨_, rfl⟩ := Prod.mk.inj (Except.ok.inj same)
  exact .refl

/-- The computation that exchanges the objects and gives a result, or fails, and looks at nothing
but the objects and the root table. -/
def Exec.consult (result : Heap → Ref .table → Except Fault (α × Heap)) : Exec α :=
  exchange fun machine => result machine.heap machine.root

theorem Exec.consult_of_ok {result : Heap → Ref .table → Except Fault (α × Heap)}
    {machine : Machine} {value : α × Heap} (made : result machine.heap machine.root = .ok value) :
    Exec.consult result machine = .ok value.1 { machine with heap := value.2 } := by
  rw [Exec.consult, exchange, made]

theorem Exec.consult_of_error {result : Heap → Ref .table → Except Fault (α × Heap)}
    {machine : Machine} {fault : Fault}
    (made : result machine.heap machine.root = .error fault) :
    Exec.consult result machine = Exec.raise fault machine := by
  rw [Exec.consult, exchange, made]

/-- Nothing but the objects and the root table of a machine. -/
def Machine.bare (machine : Machine) : Machine :=
  { (default : Machine) with heap := machine.heap, root := machine.root }

/-- The same operation with two engines.  It looks at no registers and no frames. -/
inductive Engine.Parallel (engine other : Engine) : {α : Type} → Exec α → Exec α → Prop
  | change {α : Type} (result : Heap → Ref .table → Except Fault (α × Heap))
      (plain : ∀ heap root, Plain (result heap root))
      (inert : ∀ heap root value after, result heap root = .ok (value, after) → heap.Inert after) :
      Parallel engine other (Exec.consult result) (Exec.consult result)
  | bind {α β : Type} {action action' : Exec α} {following following' : α → Exec β} :
      Parallel engine other action action' →
      (∀ value, Parallel engine other (following value) (following' value)) →
      Parallel engine other (action >>= following) (action' >>= following')
  | keeping {α : Type} {action action' : Exec α} (indices : List Nat) :
      Parallel engine other action action' →
      Parallel engine other (Exec.keeping indices action) (Exec.keeping indices action')
  | callSync (callee this : Value) (arguments : List Value) :
      Parallel engine other (engine.callSync callee this arguments)
        (other.callSync callee this arguments)

namespace Engine.Parallel

variable {engine other : Engine} {action action' : Exec α}

theorem operates (parallel : engine.Parallel other action action') : engine.Operates action := by
  induction parallel with
  | change result plain inert =>
      exact .change _ (fun _ => plain _ _) fun _ value heap made => inert _ _ value heap made
  | bind _ _ first further => exact .bind first further
  | keeping indices _ ih => exact .keeping indices ih
  | callSync callee this arguments => exact .callSync callee this arguments

theorem of_eq {image image' : Exec α} (parallel : engine.Parallel other action action')
    (same : ∀ machine, action machine = image machine)
    (same' : ∀ machine, action' machine = image' machine) : engine.Parallel other image image' :=
  funext same ▸ funext same' ▸ parallel

theorem view (look : Heap → Ref .table → α) :
    engine.Parallel other (fun machine => .ok (look machine.heap machine.root) machine)
      (fun machine => .ok (look machine.heap machine.root) machine) := by
  refine change (fun heap root => .ok (look heap root, heap)) (fun _ _ => plain_ok _) ?_
  intro heap root value after same
  obtain ⟨_, rfl⟩ := Prod.mk.inj (Except.ok.inj same)
  exact .refl

theorem raise {fault : Fault} (plain : fault.isPlain = true) :
    engine.Parallel other (Exec.raise fault : Exec α) (Exec.raise fault) := by
  refine change (fun _ _ => .error fault) (fun _ _ => (plain_error fault).mpr plain) ?_
  exact fun heap root value after same => absurd same (by simp)

theorem pure (value : α) : engine.Parallel other (Pure.pure value) (Pure.pure value) :=
  view fun _ _ => value

theorem map (parallel : engine.Parallel other action action') (image : α → β) :
    engine.Parallel other (image <$> action) (image <$> action') := by
  rw [map_eq_pure_bind, map_eq_pure_bind]
  exact parallel.bind fun value => pure (image value)

theorem discard (parallel : engine.Parallel other action action') :
    engine.Parallel other (Functor.discard action) (Functor.discard action') := parallel.map _

/-- An operation may go on with the machine as long as it makes use of nothing but its objects and
its root table. -/
theorem get_bind {following following' : Machine → Exec α}
    (parallel : ∀ machine, engine.Parallel other (following machine) (following' machine))
    (blind : ∀ machine : Machine, following machine.bare = following machine)
    (blind' : ∀ machine : Machine, following' machine.bare = following' machine) :
    engine.Parallel other (MonadState.get >>= following) (MonadState.get >>= following') := by
  have looks : engine.Parallel other (fun machine => .ok machine.bare machine)
      (fun machine => .ok machine.bare machine) :=
    view fun heap root => { (default : Machine) with heap, root }
  exact (looks.bind parallel).of_eq (fun machine => congrFun (blind machine) machine) fun machine =>
    congrFun (blind' machine) machine

theorem read {kind : Kind} (ref : Ref kind) :
    engine.Parallel other (Exec.read ref) (Exec.read ref) :=
  view fun heap _ => heap.get ref

theorem hook? (value : Value) (hook : Hook) :
    engine.Parallel other (Exec.hook? value hook) (Exec.hook? value hook) :=
  view fun heap _ => heap.hook? value hook

theorem ofPlain {result : Except Fault α} (plain : Plain result) :
    engine.Parallel other (Exec.ofExcept result) (Exec.ofExcept result) := by
  cases result with
  | ok value => exact pure value
  | error fault => exact raise plain

theorem holding (values : List Value) (parallel : engine.Parallel other action action') :
    engine.Parallel other (Exec.holding values action) (Exec.holding values action') :=
  parallel.keeping _

/-! ## Objects -/

theorem setHeap (look : Heap → α) (change : Heap → Heap)
    (inert : ∀ heap : Heap, heap.Inert (change heap)) :
    engine.Parallel other
      (fun machine => .ok (look machine.heap) { machine with heap := change machine.heap })
      (fun machine => .ok (look machine.heap) { machine with heap := change machine.heap }) := by
  refine Parallel.change (fun heap _ => .ok (look heap, change heap)) (fun _ _ => plain_ok _) ?_
  intro heap root value after same
  obtain ⟨_, rfl⟩ := Prod.mk.inj (Except.ok.inj same)
  exact inert heap

theorem alloc (kind : Kind) (content : Content kind) (inert : kind.isInert = true) :
    engine.Parallel other (Exec.alloc content) (Exec.alloc content) :=
  setHeap (fun heap => (heap.alloc content).1) (fun heap => (heap.alloc content).2) fun _ =>
    .alloc content inert .refl

theorem update {kind : Kind} (ref : Ref kind) (change : Content kind → Content kind)
    (inert : kind.isInert = true) :
    engine.Parallel other (Exec.update ref change) (Exec.update ref change) :=
  setHeap (fun _ => ()) (·.modify ref change) fun _ => .modify ref change inert .refl

theorem write {kind : Kind} (ref : Ref kind) (content : Content kind)
    (inert : kind.isInert = true) :
    engine.Parallel other (Exec.write ref content) (Exec.write ref content) :=
  update ref _ inert

theorem replace? {kind : Kind} (ref : Ref kind) (change : Content kind → Option (Content kind))
    (inert : kind.isInert = true) :
    engine.Parallel other (Exec.replace? ref change) (Exec.replace? ref change) := by
  have same : Exec.replace? ref change = fun machine =>
      .ok (change (machine.heap.get ref)).isSome
        { machine with
          heap := (change (machine.heap.get ref)).elim machine.heap (machine.heap.set ref) } := by
    funext machine
    rw [Exec.replace?]
    cases change (machine.heap.get ref) with
    | none => rfl
    | some content => rfl
  rw [same]
  refine setHeap (fun heap => (change (heap.get ref)).isSome)
    (fun heap => (change (heap.get ref)).elim heap (heap.set ref)) fun heap => ?_
  cases change (heap.get ref) with
  | none => exact .refl
  | some content => exact .modify ref _ inert .refl

theorem newArray (values : Array Value) :
    engine.Parallel other (Exec.newArray values) (Exec.newArray values) :=
  (alloc .array _ rfl).bind fun _ => pure _

theorem instantiate (ref : Ref .cls) :
    engine.Parallel other
      (modifyGet fun machine =>
        let (object, heap) := machine.heap.instantiate ref
        (object, { machine with heap }) : Exec (Ref .inst))
      (modifyGet fun machine =>
        let (object, heap) := machine.heap.instantiate ref
        (object, { machine with heap })) :=
  setHeap (fun heap => (heap.instantiate ref).1) (fun heap => (heap.instantiate ref).2) fun heap =>
    heap.inert_instantiate ref

/-! ## Slots -/

theorem missingSlot (key : Value) :
    engine.Parallel other (Exec.missingSlot key : Exec α) (Exec.missingSlot key) := raise rfl

theorem getSlot (object key : Value) :
    engine.Parallel other (Exec.getSlot engine object key) (Exec.getSlot other object key) := by
  cases object with
  | array ref =>
      refine (ofPlain key.plain_arrayIndex).bind fun index => (read ref).bind fun sequence => ?_
      exact ofPlain (sequence.plain_get index)
  | string bytes => exact ofPlain (key.plain_byteAt bytes)
  | table ref | inst ref | cls ref | userdata ref =>
      refine get_bind (fun machine => ?_) (fun _ => rfl) fun _ => rfl
      cases machine.heap.slot? _ key with
      | some value => exact pure value
      | none =>
          refine (hook? _ _).bind fun handler => ?_
          cases handler with
          | some handler => exact callSync _ _ _
          | none => exact missingSlot key
  | _ => exact raise rfl

theorem assignOwn (object key value : Value) :
    engine.Parallel other (Exec.assignOwn object key value) (Exec.assignOwn object key value) := by
  cases object with
  | table ref => exact replace? ref (fun table => table.set? key value) rfl
  | inst ref => exact (read ref).bind fun own => (read own.cls).bind fun _ => replace? ref _ rfl
  | cls ref => exact replace? ref (fun cls => cls.set? key value) rfl
  | _ => exact pure false

theorem setSlot (object key value : Value) :
    engine.Parallel other (Exec.setSlot engine object key value)
      (Exec.setSlot other object key value) := by
  cases object with
  | array ref =>
      refine (ofPlain key.plain_arrayIndex).bind fun index => (read ref).bind fun sequence => ?_
      exact (ofPlain (sequence.plain_position index)).bind fun _ => update ref _ rfl
  | table ref | inst ref | cls ref | userdata ref =>
      refine (assignOwn _ key value).bind fun assigned => ?_
      cases assigned with
      | true => exact pure ()
      | false =>
          refine (hook? _ _).bind fun handler => ?_
          cases handler with
          | none => exact missingSlot key
          | some handler => exact (callSync _ _ _).discard
  | _ => exact raise rfl

theorem newSlot (object key value : Value) :
    engine.Parallel other (Exec.newSlot engine object key value)
      (Exec.newSlot other object key value) := by
  cases object with
  | table ref =>
      refine (ofPlain key.plain_checkKey).bind fun _ =>
        get_bind (fun machine => ?_) (fun _ => rfl) fun _ => rfl
      extract_lets isNew settle settle'
      have settles : ∀ handler, engine.Parallel other (settle handler) (settle' handler) := by
        intro handler
        cases handler with
        | none => exact update ref _ rfl
        | some handler => exact (callSync _ _ _).discard
      cases isNew with
      | true => exact (hook? _ _).bind settles
      | false => exact (pure none).bind settles
  | cls ref =>
      refine (read ref).bind fun cls => ?_
      exact (ofPlain (cls.plain_newSlot key value)).bind fun _ => write ref _ rfl
  | inst ref | userdata ref =>
      refine (hook? _ _).bind fun handler => ?_
      cases handler with
      | none => exact raise rfl
      | some handler => exact (callSync _ _ _).discard
  | _ => exact raise rfl

theorem deleteByHook (object key : Value) :
    engine.Parallel other (Exec.deleteByHook engine object key)
      (Exec.deleteByHook other object key) := by
  refine (hook? _ _).bind fun handler => ?_
  cases handler with
  | none => exact missingSlot key
  | some handler => exact callSync _ _ _

theorem deleteSlot (object key : Value) :
    engine.Parallel other (Exec.deleteSlot engine object key)
      (Exec.deleteSlot other object key) := by
  cases object with
  | table ref =>
      refine (read ref).bind fun table => ?_
      cases table.erase? key with
      | some found => exact (write ref _ rfl).bind fun _ => pure _
      | none => exact deleteByHook _ key
  | inst ref | userdata ref => exact deleteByHook _ key
  | _ => exact raise rfl

theorem setDelegate (object delegate : Value) :
    engine.Parallel other (Exec.setDelegate object delegate)
      (Exec.setDelegate object delegate) := by
  refine bind ?_ fun delegate => ?_
  · cases delegate with
    | null | table => exact pure _
    | _ => exact raise rfl
  · cases object with
    | table ref =>
        have outcome : ∀ heap : Heap, heap.setTableDelegate ref delegate = .error .delegateCycle ∨
            heap.setTableDelegate ref delegate =
              .ok (heap.modify ref fun table => { table with delegate }) := by
          intro heap
          rw [Heap.setTableDelegate]
          split
          · exact .inl rfl
          · exact .inr rfl
        have same : (do
            let heap ← Exec.ofExcept ((← MonadState.get).heap.setTableDelegate ref delegate)
            modify fun machine => { machine with heap } : Exec Unit) =
            Exec.consult fun heap _ => (heap.setTableDelegate ref delegate).map (((), ·)) := by
          funext machine
          show EStateM.bind (Exec.ofExcept (machine.heap.setTableDelegate ref delegate)) _
            machine = _
          rw [Exec.consult, Exec.exchange]
          rcases outcome machine.heap with refused | done
          · rw [refused]
            rfl
          · rw [done]
            rfl
        dsimp only
        rw [same]
        refine change _ (fun heap _ => ?_) fun heap _ value after done => ?_
        · rcases outcome heap with refused | done
          · rw [refused]
            exact (plain_error _).mpr rfl
          · rw [done]
            exact plain_ok _
        · rcases outcome heap with refused | made
          · rw [refused] at done
            exact absurd done (by simp [Except.map])
          · rw [made] at done
            obtain ⟨_, rfl⟩ := Prod.mk.inj (Except.ok.inj done)
            exact .modify ref _ rfl .refl
    | userdata ref =>
        exact setHeap (fun _ => ()) (·.setDataDelegate ref delegate) fun _ =>
          .modify ref _ rfl .refl
    | _ => exact raise rfl

theorem typeOf (value : Value) :
    engine.Parallel other (Exec.typeOf engine value) (Exec.typeOf other value) := by
  refine (hook? _ _).bind fun handler => ?_
  cases handler with
  | none => exact pure _
  | some handler => exact callSync _ _ _

/-! ## Operators -/

theorem displayText (value : Value) :
    engine.Parallel other (Exec.displayText engine value) (Exec.displayText other value) := by
  rw [Exec.displayText, Exec.displayText]
  split
  · exact pure _
  · refine (hook? _ _).bind fun handler => ?_
    cases handler with
    | none => exact pure _
    | some handler => exact (callSync _ _ _).bind fun _ => pure _

theorem arith (op : ArithOp) (left right : Value) :
    engine.Parallel other (Exec.arith engine op left right) (Exec.arith other op left right) := by
  rw [Exec.arith.eq_def, Exec.arith.eq_def]
  split
  · exact (ofPlain (op.plain_onIntegers _ _)).bind fun _ => pure _
  · split
    · exact pure _
    · split
      · exact (displayText _).bind fun _ => (displayText _).bind fun _ => pure _
      · refine (hook? _ _).bind fun handler => ?_
        cases handler with
        | none => exact raise rfl
        | some handler => exact callSync _ _ _

theorem negate (value : Value) :
    engine.Parallel other (Exec.negate engine value) (Exec.negate other value) := by
  cases value with
  | integer | float => exact pure _
  | _ =>
      refine (hook? _ _).bind fun handler => ?_
      cases handler with
      | none => exact raise rfl
      | some handler => exact callSync _ _ _

theorem orderBySign {fault : String → Fault} (plain : ∀ type, (fault type).isPlain = true)
    (value : Value) :
    engine.Parallel other (Exec.orderBySign fault value) (Exec.orderBySign fault value) := by
  cases value with
  | integer => exact pure _
  | _ => exact raise (plain _)

theorem order (left right : Value) :
    engine.Parallel other (Exec.order engine left right) (Exec.order other left right) := by
  delta Exec.order
  extract_lets settle settle'
  have settles : ∀ handler, engine.Parallel other (settle handler) (settle' handler) := by
    intro handler
    cases handler with
    | none => exact ofPlain (left.plain_order right)
    | some handler => exact (callSync _ _ _).bind fun _ => orderBySign (fun _ => rfl) _
  split
  · exact (hook? _ _).bind settles
  · exact (pure none).bind settles

/-! ## Classes -/

theorem deriveClass (base : Option (Ref .cls)) :
    engine.Parallel other (Exec.deriveClass engine base) (Exec.deriveClass other base) := by
  refine bind ?_ fun cls => ?_
  · refine setHeap (fun heap => Value.cls (heap.allocClass base).1)
      (fun heap => (heap.allocClass base).2) fun heap => ?_
    cases base with
    | none => exact .alloc _ rfl .refl
    | some ref => exact .alloc _ rfl .refl
  · cases base with
    | none => exact pure cls
    | some ref =>
        refine (read ref).bind fun parent => ?_
        cases Class.hook? parent .inherited with
        | some handler => exact (callSync _ _ _).discard.bind fun _ => pure cls
        | none => exact pure cls

theorem instanceOf (cls object : Value) :
    engine.Parallel other (Exec.instanceOf cls object) (Exec.instanceOf cls object) := by
  cases cls with
  | cls ref =>
      cases object with
      | inst own => exact (read own).bind fun _ =>
            get_bind (fun _ => pure _) (fun _ => rfl) fun _ => rfl
      | _ => exact pure false
  | _ => exact raise rfl

end Engine.Parallel

theorem Engine.Operates.newClass {engine : Engine} (instruction : Instruction) :
    engine.Operates (Exec.newClass .direct engine instruction) := by
  rw [Exec.newClass_eq]
  have derives : ∀ base, engine.Parallel engine (Exec.deriveClass engine base)
      (Exec.deriveClass engine base) := fun base => .deriveClass base
  have raises : ∀ fault : Fault, fault.isPlain = true →
      engine.Operates (Exec.raise fault : Exec (Option (Ref .cls))) := fun fault plain =>
    have parallel : engine.Parallel engine (Exec.raise fault : Exec (Option (Ref .cls)))
      (Exec.raise fault) := .raise plain
    parallel.operates
  refine Operates.bind ?_ fun base => (derives base).operates
  rw [Exec.baseClass]
  split
  · exact .view fun _ => none
  · refine Operates.bind (.view _) fun value => ?_
    cases value with
    | cls ref => exact .view fun _ => some ref
    | _ => exact raises _ rfl

namespace Engine.Parallel

variable {engine other : Engine}

/-! ## Iteration -/

theorem hookStep? (container cursor : Value) :
    engine.Parallel other (Exec.hookStep? engine container cursor)
      (Exec.hookStep? other container cursor) := by
  refine (hook? _ _).bind fun handler => ?_
  cases handler with
  | none => exact pure none
  | some handler =>
      refine (callSync _ _ _).bind fun key => ?_
      split
      · exact pure _
      · exact (getSlot _ _).bind fun value => pure _

/-- Only a generator is iterated by running it in the frame. -/
theorem iterationStep (container cursor : Value) (registers : IterationRegisters)
    (still : ∀ ref, container ≠ .generator ref) :
    engine.Parallel other (Exec.iterationStep .direct engine container cursor registers)
      (Exec.iterationStep .direct other container cursor registers) := by
  have position : engine.Parallel other (Exec.ofExcept cursor.position)
      (Exec.ofExcept cursor.position) := ofPlain cursor.plain_position
  cases container with
  | table ref => exact position.bind fun _ => (read ref).bind fun _ => pure _
  | array ref => exact position.bind fun _ => (read ref).bind fun _ => pure _
  | string bytes => exact position.bind fun _ => pure _
  | cls ref => exact position.bind fun _ => (read ref).bind fun _ => pure _
  | inst ref =>
      refine (hookStep? _ _).bind fun step => ?_
      cases step with
      | none =>
          exact position.bind fun _ => (read ref).bind fun object => (read _).bind fun _ => pure _
      | some step => exact pure step
  | userdata ref =>
      refine (hookStep? _ _).bind fun step => ?_
      cases step with
      | none => exact raise rfl
      | some step => exact pure step
  | generator ref => exact absurd rfl (still ref)
  | _ => exact raise rfl

end Engine.Parallel

/-! ## Sorting -/

namespace Quicksort

variable {engine other : Engine} {order order' : Value → Value → Exec Ordering}

/-- The computation of the machine that sorts some values. -/
def onMachine (values : Array Value) (action : Sorting Value Stop Machine α) :
    Exec (α × Array Value) := fun machine =>
  match action (values, machine) with
  | .ok result (moved, next) => .ok (result, moved) next
  | .error stop (_, next) => .error stop next

theorem onMachine_bind (values : Array Value) (action : Sorting Value Stop Machine α)
    (following : α → Sorting Value Stop Machine β) :
    onMachine values (action >>= following) =
      onMachine values action >>= fun (result, moved) => onMachine moved (following result) := by
  funext machine
  show onMachine values (EStateM.bind action following) machine = EStateM.bind _ _ machine
  simp only [onMachine, EStateM.bind]
  cases action (values, machine) with
  | ok result next => rfl
  | error stop next => rfl

theorem snd_onMachine_sort (order : Value → Value → Exec Ordering) (values : Array Value) :
    Prod.snd <$> onMachine values (sort order) = Exec.sortValues order values := by
  funext machine
  show EStateM.map _ _ machine = _
  simp only [EStateM.map, onMachine, Exec.sortValues]
  cases sort order (values, machine) with
  | ok result next => rfl
  | error stop next => rfl

/-- Sorting is the same operation with two engines, whatever the values are. -/
def Parallel (engine other : Engine) (action action' : Sorting Value Stop Machine α) : Prop :=
  ∀ values, engine.Parallel other (onMachine values action) (onMachine values action')

theorem Parallel.bind {action action' : Sorting Value Stop Machine α}
    {following following' : α → Sorting Value Stop Machine β}
    (first : Parallel engine other action action')
    (further : ∀ value, Parallel engine other (following value) (following' value)) :
    Parallel engine other (action >>= following) (action' >>= following') := by
  intro values
  rw [onMachine_bind, onMachine_bind]
  exact (first values).bind fun (result, moved) => further result moved

theorem Parallel.pure (value : α) :
    Parallel engine other (Pure.pure value) (Pure.pure value) := fun _ => .pure _

theorem Parallel.swapAt (left right : Nat) :
    Parallel engine other (Quicksort.swapAt left right) (Quicksort.swapAt left right) :=
  fun _ => .pure _

theorem onMachine_compareAt (order : Value → Value → Exec Ordering) (values : Array Value)
    (left right : Nat) :
    onMachine values (compareAt order left right) =
      (fun result => (result, values)) <$> ((values[left]?.bind fun x => values[right]?.map
        fun y => order x y).getD (Pure.pure .eq)) := by
  funext machine
  show _ = EStateM.map _ _ machine
  cases first : values[left]? with
  | none =>
      simp only [onMachine, compareAt, first]
      rfl
  | some x =>
      cases second : values[right]? with
      | none =>
          simp only [onMachine, compareAt, first, second]
          rfl
      | some y =>
          simp only [onMachine, compareAt, first, second, EStateM.map, Option.bind_some,
            Option.map_some, Option.getD_some]
          cases order x y machine with
          | ok result next => rfl
          | error stop next => rfl

variable (parallel : ∀ left right, engine.Parallel other (order left right) (order' left right))

include parallel

theorem Parallel.compareAt (left right : Nat) :
    Parallel engine other (Quicksort.compareAt order left right)
      (Quicksort.compareAt order' left right) := by
  intro values
  rw [onMachine_compareAt, onMachine_compareAt]
  refine .map ?_ _
  cases values[left]? with
  | none => exact .pure _
  | some x =>
      cases values[right]? with
      | none => exact .pure _
      | some y => exact parallel x y

theorem Parallel.sweep (last steps index store : Nat) :
    Parallel engine other (Quicksort.sweep order last steps index store)
      (Quicksort.sweep order' last steps index store) := by
  induction steps generalizing index store with
  | zero => exact .pure store
  | succ steps ih =>
      refine (compareAt parallel index last).bind fun found => ?_
      split
      · exact (swapAt index store).bind fun _ => ih _ _
      · exact ih _ _

theorem Parallel.sortRange (depth low size : Nat) :
    Parallel engine other (Quicksort.sortRange order depth low size)
      (Quicksort.sortRange order' depth low size) := by
  induction depth generalizing low size with
  | zero => exact .pure ()
  | succ depth ih =>
      rw [Quicksort.sortRange, Quicksort.sortRange]
      split
      · exact .pure ()
      · refine Parallel.bind ?_ fun pivot => ?_
        · refine (swapAt _ _).bind fun _ => (sweep parallel _ _ _ _).bind fun store => ?_
          exact (swapAt _ _).bind fun _ => .pure store
        · dsimp only
          split
          · exact (ih _ _).bind fun _ => ih _ _
          · exact (ih _ _).bind fun _ => ih _ _

theorem Parallel.sort : Parallel engine other (Quicksort.sort order) (Quicksort.sort order') := by
  intro values
  exact sortRange parallel values.size 0 values.size values

end Quicksort

theorem Engine.Parallel.sortArray {engine other : Engine} (ref : Ref .array)
    (comparator : Option Value) :
    engine.Parallel other (Exec.sortArray engine ref comparator)
      (Exec.sortArray other ref comparator) := by
  refine (read ref).bind fun sequence =>
    get_bind (fun machine => ?_) (fun _ => rfl) fun _ => rfl
  have ordered : ∀ left right, engine.Parallel other
      (Exec.sortOrder engine (.table machine.root) comparator left right)
      (Exec.sortOrder other (.table machine.root) comparator left right) := by
    intro left right
    cases comparator with
    | none => exact Engine.Parallel.order left right
    | some comparator => exact (callSync _ _ _).bind fun _ => orderBySign (fun _ => rfl) _
  refine (holding _ ?_).bind fun sorted => (read ref).bind fun after => ?_
  · rw [← Quicksort.snd_onMachine_sort, ← Quicksort.snd_onMachine_sort]
    exact (Quicksort.Parallel.sort ordered sequence.values).map Prod.snd
  · split
    · exact (raise rfl).bind fun _ => write ref _ rfl
    · exact write ref _ rfl

end ScriptMachine
