import Mathlib.Data.List.Induction
import Mathlib.Data.List.SplitBy
import Mathlib.Data.Set.Insert
import Mathlib.Order.Interval.Set.Defs
import ScriptMachine.Object.TypeMask

/-!
# The language of type masks

A mask text without its blanks is a row of letters and bars.  It falls into groups, the longest
segments in which of each two neighbours one is a bar, and the reader keeps, after every character,
one mask for each group so far.  `masks_exact` says which texts can be read, what their masks are,
and which arguments a function with these masks accepts.
-/

namespace ScriptMachine

/-- The letters that allow a value. -/
def Value.maskLetters : Value → List Char
  | .null => ['o', '.']
  | .integer _ => ['i', 'n', '.']
  | .float _ => ['f', 'n', '.']
  | .bool _ => ['b', '.']
  | .string _ => ['s', '.']
  | .table _ => ['t', '.']
  | .array _ => ['a', '.']
  | .userdata _ => ['u', '.']
  | .closure _ | .native _ => ['c', '.']
  | .generator _ => ['g', '.']
  | .pointer _ => ['p', '.']
  | .thread _ => ['v', '.']
  | .inst _ => ['x', '.']
  | .cls _ => ['y', '.']
  | .routine _ => ['r', '.']

namespace TypeMask

/-- The letters of the mask language. -/
def letters : List Char :=
  ['o', 'i', 'f', 'n', 'b', 's', 't', 'a', 'u', 'c', 'g', 'p', 'v', 'x', 'y', 'r', '.']

/-- The characters of a text that mean something. -/
def bare (characters : List Char) : List Char := characters.filter (· != ' ')

/-- Of two neighbours in a group one is a bar. -/
def joins (left right : Char) : Bool := left == '|' || right == '|'

/-- The groups of a text without blanks. -/
def segments (text : List Char) : List (List Char) := text.splitBy joins

/-- The mask of a group: the types of all its letters. -/
def union (segment : List Char) : UInt32 :=
  (segment.filterMap ofLetter?).foldl (· ||| ·) 0

/-- A beginning of a text without blanks can be read. -/
structure Begins (text : List Char) : Prop where
  /-- There are letters and bars only. -/
  known : ∀ c ∈ text, c = '|' ∨ c ∈ letters
  /-- The first character is a letter. -/
  first : ∀ c ∈ text.head?, c ∈ letters

/-- A text without blanks can be read. -/
structure Readable (text : List Char) : Prop extends Begins text where
  /-- The last character is a letter. -/
  last : ∀ c ∈ text.getLast?, c ∈ letters

/-! ## Letters -/

theorem ofLetter?_isSome_iff (c : Char) : (ofLetter? c).isSome = true ↔ c ∈ letters := by
  constructor
  · intro known
    by_contra absent
    simp only [letters, List.mem_cons, List.not_mem_nil, or_false, not_or] at absent
    simp [ofLetter?, absent] at known
  · have all : letters.all (fun c => (ofLetter? c).isSome) = true := by decide
    exact List.all_eq_true.mp all c

theorem bar_notMem_maskLetters (value : Value) : '|' ∉ value.maskLetters := by
  cases value <;> simp [Value.maskLetters]

/-- A letter admits the values that it is meant for. -/
theorem admits_letter_iff {c : Char} (known : c ∈ letters) (value : Value) :
    admits ((ofLetter? c).getD 0) value = true ↔ c ∈ value.maskLetters := by
  have all : letters.all (fun c =>
      admits ((ofLetter? c).getD 0) value == value.maskLetters.contains c) = true := by
    cases value <;> simp only [admits, ofValue, Value.maskLetters] <;> decide
  rw [beq_iff_eq.mp (List.all_eq_true.mp all c known), List.contains_iff_mem]

/-! ## Masks -/

theorem and_or_distrib (x y z : UInt32) : x &&& (y ||| z) = x &&& y ||| x &&& z :=
  UInt32.toBitVec_inj.mp BitVec.and_or_distrib_left

theorem admits_or (one other : UInt32) (value : Value) :
    admits (one ||| other) value = true ↔ admits one value = true ∨ admits other value = true := by
  simp only [admits, bne_iff_ne, and_or_distrib, ne_eq, UInt32.or_eq_zero_iff, not_and_or]

theorem union_concat (segment : List Char) (c : Char) :
    union (segment ++ [c]) = union segment ||| (ofLetter? c).getD 0 := by
  rw [union, List.filterMap_append, List.foldl_append]
  cases means : ofLetter? c with
  | none => simp [means, union]
  | some types => simp [means, union]

theorem union_singleton (c : Char) : union [c] = (ofLetter? c).getD 0 := by
  have alone := union_concat [] c
  rwa [List.nil_append, show union [] = 0 from rfl, UInt32.zero_or] at alone

theorem union_concat_bar (segment : List Char) : union (segment ++ ['|']) = union segment := by
  rw [union_concat, show (ofLetter? '|').getD 0 = 0 from rfl, UInt32.or_zero]

/-- A group admits the values that one of its letters admits. -/
theorem admits_union_iff {segment : List Char} (known : ∀ c ∈ segment, c = '|' ∨ c ∈ letters)
    (value : Value) :
    admits (union segment) value = true ↔ ∃ c ∈ segment, c ∈ value.maskLetters := by
  induction segment using List.reverseRecOn with
  | nil => simp [union, admits]
  | append_singleton segment c ih =>
      have before := ih fun other inside => known other (List.mem_append_left _ inside)
      have own : admits ((ofLetter? c).getD 0) value = true ↔ c ∈ value.maskLetters := by
        rcases known c (List.mem_append_right _ (List.mem_singleton_self c)) with rfl | letter
        · exact iff_of_false (by simp [admits, ofLetter?]) (bar_notMem_maskLetters value)
        · exact admits_letter_iff letter value
      rw [union_concat, admits_or, before, own]
      simp only [List.mem_append, List.mem_singleton, or_and_right, exists_or, exists_eq_left]

/-! ## Groups -/

section

variable {text : List Char} {last c : Char}

/-- A group has no characters but those of the text. -/
theorem known_of_mem_segments (begins : Begins text) {segment : List Char}
    (inside : segment ∈ segments text) : ∀ c ∈ segment, c = '|' ∨ c ∈ letters := by
  intro c own
  have whole : (segments text).flatten = text := List.flatten_splitBy joins text
  exact begins.known c (whole ▸ List.mem_flatten_of_mem inside own)

theorem exists_segments_eq (filled : text ≠ []) :
    ∃ front segment, segments text = front ++ [segment] :=
  (List.eq_nil_or_concat' (segments text)).resolve_left (List.splitBy_ne_nil.mpr filled)

/-- A character that is joined to the last one makes the last group longer. -/
theorem segments_concat_joined (ends : text.getLast? = some last) (joined : joins last c = true) :
    ∃ front segment, segments text = front ++ [segment] ∧
      segments (text ++ [c]) = front ++ [segment ++ [c]] := by
  have filled : text ≠ [] := List.ne_nil_of_mem (List.mem_of_getLast? ends)
  obtain ⟨front, segment, parts⟩ := exists_segments_eq filled
  obtain ⟨whole, nonempty, chained, apart⟩ := List.splitBy_eq_iff.mp parts
  rw [List.flatten_concat] at whole
  have occupied : segment ≠ [] := fun empty =>
    nonempty (List.mem_append_right _ (List.mem_singleton.mpr empty.symm))
  have final : segment.getLast? = some last := by
    rw [← ends, whole, List.getLast?_append_of_ne_nil _ occupied]
  refine ⟨front, segment, parts, List.splitBy_eq_iff.mpr ⟨?_, ?_, ?_, ?_⟩⟩
  · rw [whole, List.flatten_concat, List.append_assoc]
  · rintro empty
    rcases List.mem_append.mp empty with inside | own
    · exact nonempty (List.mem_append_left _ inside)
    · simp at own
  · intro other inside
    rcases List.mem_append.mp inside with before | own
    · exact chained other (List.mem_append_left _ before)
    · obtain rfl := List.mem_singleton.mp own
      refine List.isChain_append.mpr ⟨chained segment (by simp), List.isChain_singleton c, ?_⟩
      simpa [final] using joined
  · obtain ⟨chain, _, seam⟩ := List.isChain_append.mp apart
    refine List.isChain_append.mpr ⟨chain, List.isChain_singleton _, ?_⟩
    intro left ends right starts
    obtain rfl : segment ++ [c] = right := by simpa using starts
    obtain ⟨leftFilled, _, differ⟩ := seam left ends segment rfl
    refine ⟨leftFilled, by simp, ?_⟩
    rwa [List.head_append_of_ne_nil occupied]

/-- A character that is not joined to the last one starts a group. -/
theorem segments_concat_apart (apart : ∀ last ∈ text.getLast?, joins last c = false) :
    segments (text ++ [c]) = segments text ++ [[c]] :=
  List.splitBy_append_cons [] apart

/-- The masks of a text without blanks. -/
def masks (text : List Char) : List UInt32 := (segments text).map union

theorem masks_concat_bar (filled : text ≠ []) : masks (text ++ ['|']) = masks text := by
  have ends := List.getLast?_eq_some_getLast filled
  obtain ⟨front, segment, before, after⟩ :=
    segments_concat_joined (c := '|') ends (by simp [joins])
  rw [masks, masks, before, after, List.map_append, List.map_append, List.map_singleton,
    List.map_singleton, union_concat_bar]

/-- Behind a bar, a letter adds its types to the last mask. -/
theorem masks_concat_joined (ends : text.getLast? = some '|') (c : Char) :
    ∃ front mask, masks text = front ++ [mask] ∧
      masks (text ++ [c]) = front ++ [mask ||| (ofLetter? c).getD 0] := by
  obtain ⟨front, segment, before, after⟩ :=
    segments_concat_joined (c := c) ends (by simp [joins])
  refine ⟨front.map union, union segment, ?_, ?_⟩
  · rw [masks, before, List.map_append, List.map_singleton]
  · rw [masks, after, List.map_append, List.map_singleton, union_concat]

theorem masks_concat_apart (ends : text.getLast? ≠ some '|') (other : c ≠ '|') :
    masks (text ++ [c]) = masks text ++ [(ofLetter? c).getD 0] := by
  have apart : ∀ last ∈ text.getLast?, joins last c = false := by
    intro last final
    have lastOther : last ≠ '|' := by
      rintro rfl
      exact ends final
    simp [joins, lastOther, other]
  rw [masks, segments_concat_apart apart, List.map_append, List.map_singleton, union_singleton]
  rfl

end

/-! ## Reading -/

/-- What the reader knows of the text it has read. -/
structure Tracks (text : List Char) (state : State) : Prop where
  /-- There is one mask for each group. -/
  close : state.close = masks text
  /-- A group is open as soon as there is a letter. -/
  current : state.current = none ↔ text = []
  /-- A bar waits exactly if it is the last character. -/
  joining : state.joining = true ↔ text.getLast? = some '|'

theorem tracks_nil : Tracks [] {} := ⟨rfl, by simp, by simp⟩

section

variable {text : List Char} {state : State} {c : Char} {types : UInt32}

theorem Tracks.bar (tracks : Tracks text state) (filled : text ≠ []) :
    Tracks (text ++ ['|']) { state with joining := true } where
  close := tracks.close.trans (masks_concat_bar filled).symm
  current := by
    rw [tracks.current]
    simp [filled]
  joining := by simp

theorem Tracks.letter (tracks : Tracks text state) (means : ofLetter? c = some types)
    (other : c ≠ '|') : Tracks (text ++ [c]) (state.letter types) := by
  obtain ⟨close, current, joining⟩ := tracks
  have mask : (ofLetter? c).getD 0 = types := by rw [means, Option.getD_some]
  have ending : (text ++ [c]).getLast? ≠ some '|' := by simpa using other
  rw [State.letter]
  cases opened : state.current with
  | none =>
      obtain rfl := current.mp opened
      have groups : state.groups = [] := by simpa [State.close, opened, masks, segments] using close
      have idle : state.joining ≠ true := by simpa using joining
      refine ⟨?_, by simp, iff_of_false idle ending⟩
      rw [masks_concat_apart (by simp) other, mask]
      simp [State.close, groups, masks, segments]
  | some group =>
      dsimp only
      rw [State.close, opened, Option.toList_some] at close
      split
      case isTrue waits =>
        obtain ⟨front, last, before, after⟩ := masks_concat_joined (joining.mp waits) c
        obtain ⟨rfl, same⟩ := List.append_inj' (close.trans before) rfl
        obtain rfl := List.singleton_inj.mp same
        refine ⟨?_, by simp, iff_of_false (by simp) ending⟩
        rw [after, mask]
        rfl
      case isFalse idle =>
        refine ⟨?_, by simp, iff_of_false idle ending⟩
        rw [masks_concat_apart (fun bar => idle (joining.mpr bar)) other, mask, ← close]
        simp [State.close, opened]

theorem begins_concat_bar (begins : Begins text) (filled : text ≠ []) : Begins (text ++ ['|']) where
  known other inside := by
    rcases List.mem_append.mp inside with before | own
    · exact begins.known other before
    · exact .inl (List.mem_singleton.mp own)
  first other starts := by
    rw [List.head?_append_of_ne_nil _ filled] at starts
    exact begins.first other starts

theorem begins_concat_letter (begins : Begins text) (letter : c ∈ letters) :
    Begins (text ++ [c]) where
  known other inside := by
    rcases List.mem_append.mp inside with before | own
    · exact begins.known other before
    · exact .inr (List.mem_singleton.mp own ▸ letter)
  first other starts := by
    cases text with
    | nil =>
        obtain rfl : c = other := by simpa using starts
        exact letter
    | cons head tail => exact begins.first other starts

end

/-- What reading characters that mean a text gives: the state of the reader, or the error of the
first character that cannot stand at its place. -/
inductive Reading (spec : String) (text : List Char) : Except MaskError State → Prop
  /-- The text is the beginning of a readable one. -/
  | begins {state : State} (begins : Begins text) (tracks : Tracks text state) :
    Reading spec text (.ok state)
  /-- The text starts with a bar. -/
  | leadingBar (starts : text.head? = some '|') : Reading spec text (.error (.leadingBar spec))
  /-- There is a character that is neither a letter nor a bar. -/
  | unknownLetter {front rest : List Char} {c : Char} (begins : Begins front)
    (unknown : c ∉ letters) (other : c ≠ '|') (whole : text = front ++ c :: rest) :
    Reading spec text (.error (.unknownLetter c))

theorem Reading.next {spec : String} {text : List Char} {result : Except MaskError State}
    (reading : Reading spec text result) {c : Char} (filled : c ≠ ' ') :
    Reading spec (text ++ [c]) (result >>= fun state => state.next spec c) := by
  cases reading with
  | @begins state begins tracks =>
      show Reading spec (text ++ [c]) (state.next spec c)
      rw [State.next, if_neg (by simpa using filled)]
      by_cases bar : c = '|'
      · subst bar
        rw [if_pos (by simp)]
        by_cases empty : text = []
        · rw [if_pos (by simpa using tracks.current.mpr empty)]
          exact .leadingBar (by simp [empty])
        · rw [if_neg (by simpa using fun absent => empty (tracks.current.mp absent))]
          exact .begins (begins_concat_bar begins empty) (tracks.bar empty)
      · rw [if_neg (by simpa using bar)]
        cases means : ofLetter? c with
        | some types =>
            have letter : c ∈ letters :=
              (ofLetter?_isSome_iff c).mp (by rw [means, Option.isSome_some])
            exact .begins (begins_concat_letter begins letter) (tracks.letter means bar)
        | none =>
            have unknown : c ∉ letters := fun letter => by
              simpa [means] using (ofLetter?_isSome_iff c).mpr letter
            exact .unknownLetter begins unknown bar rfl
  | leadingBar starts =>
      refine .leadingBar ?_
      rw [List.head?_append, starts, Option.some_or]
  | @unknownLetter front rest unread begins unknown other whole =>
      have longer : text ++ [c] = front ++ unread :: (rest ++ [c]) := by
        rw [whole, List.append_assoc, List.cons_append]
      exact .unknownLetter begins unknown other longer

theorem bare_concat (characters : List Char) (c : Char) :
    bare (characters ++ [c]) = if c = ' ' then bare characters else bare characters ++ [c] := by
  rw [bare, List.filter_append]
  split
  case isTrue blank => simp [bare, blank]
  case isFalse filled => simp [bare, filled]

theorem reading_foldlM (spec : String) (characters : List Char) :
    Reading spec (bare characters) (characters.foldlM (State.next spec) {}) := by
  induction characters using List.reverseRecOn with
  | nil => exact .begins ⟨fun c inside => absurd inside List.not_mem_nil, by simp [bare]⟩ tracks_nil
  | append_singleton front c ih =>
      rw [List.foldlM_append]
      simp only [List.foldlM_cons, List.foldlM_nil, bind_pure]
      rw [bare_concat]
      split
      case isTrue blank =>
        have skips : (fun state : State => state.next spec c) = pure := by
          funext state
          rw [State.next, if_pos (by simpa using blank)]
          rfl
        rwa [skips, bind_pure]
      case isFalse filled => exact ih.next filled

/-- A beginning that does not end in a bar is a readable text. -/
theorem readable_iff {text : List Char} :
    Readable text ↔ Begins text ∧ text.getLast? ≠ some '|' := by
  constructor
  · rintro ⟨begins, last⟩
    exact ⟨begins, fun bar => absurd (last '|' bar) (by decide)⟩
  · rintro ⟨begins, final⟩
    refine ⟨begins, fun c ends => ?_⟩
    refine (begins.known c (List.mem_of_getLast? ends)).resolve_left ?_
    rintro rfl
    exact final ends

/-- A text can be read exactly if it is readable, and then it has one mask for each group. -/
theorem parse_eq_ok_iff (spec : String) (groups : List UInt32) :
    parse spec = .ok groups ↔
      Readable (bare spec.toList) ∧ groups = masks (bare spec.toList) := by
  have reading := reading_foldlM spec spec.toList
  rw [parse, readable_iff]
  generalize spec.toList.foldlM (State.next spec) {} = result at reading
  cases reading with
  | @begins state begins tracks =>
      show (if state.joining then Except.error (MaskError.trailingBar spec) else .ok state.close) =
        .ok groups ↔ _
      rw [← tracks.close, ne_eq, ← tracks.joining]
      by_cases waits : state.joining = true
      · simp [waits]
      · simp [waits, begins, eq_comm]
  | leadingBar starts =>
      refine iff_of_false (fun same => nomatch same) ?_
      rintro ⟨⟨begins, _⟩, _⟩
      exact absurd (begins.first '|' starts) (by decide)
  | unknownLetter _ unknown other whole =>
      refine iff_of_false (fun same => nomatch same) ?_
      rintro ⟨⟨begins, _⟩, _⟩
      have inside := begins.known _ (whole ▸ List.mem_append_right _ List.mem_cons_self)
      exact inside.elim other unknown

end TypeMask

/-! ## Arguments -/

/-- The numbers of arguments that a function takes. -/
def Arity.counts : Arity → Set Nat
  | .any => Set.univ
  | .exactly count => {count}
  | .atLeast count => Set.Ici count

theorem Arity.accepts_iff (arity : Arity) (given : Nat) :
    arity.accepts given = true ↔ given ∈ arity.counts := by
  cases arity with
  | any => simp [accepts, counts]
  | exactly count => simp [accepts, counts]
  | atLeast count => simp [accepts, counts]

namespace Native

/-- The types of arguments are in order exactly if every value with a mask is admitted by it. -/
theorem checkTypes_eq_ok_iff (name : String) (position : Nat) (values : List Value)
    (groups : List UInt32) :
    checkTypes name position values groups = .ok () ↔
      ∀ (index : Nat) (value : Value) (group : UInt32), values[index]? = some value →
        groups[index]? = some group → TypeMask.admits group value = true := by
  fun_induction checkTypes name position values groups with
  | case1 position value values group groups admitted ih =>
      rw [ih]
      constructor
      · intro rest index other mask
        cases index with
        | zero =>
            simp only [List.getElem?_cons_zero, Option.some.injEq]
            rintro rfl rfl
            exact admitted
        | succ index => simpa only [List.getElem?_cons_succ] using rest index other mask
      · intro all index other mask found masked
        exact all (index + 1) other mask found masked
  | case2 position value values group groups refused =>
      refine iff_of_false (fun same => nomatch same) fun all => refused ?_
      exact all 0 value group rfl rfl
  | case3 values position groups done =>
      refine iff_of_true rfl fun index value group found masked => ?_
      cases values with
      | nil => simp at found
      | cons first values =>
          cases groups with
          | nil => simp at masked
          | cons mask groups => exact (done _ _ _ _ rfl rfl).elim

theorem checkArguments_eq_ok_iff (native : Native) (arguments : List Value) :
    native.checkArguments arguments = .ok () ↔ arguments.length ∈ native.arity.counts ∧
      ∀ (index : Nat) (value : Value) (group : UInt32), arguments[index]? = some value →
        native.masks[index]? = some group → TypeMask.admits group value = true := by
  rw [checkArguments, ← Arity.accepts_iff, ← checkTypes_eq_ok_iff native.name 0]
  split
  case isTrue accepted => exact (and_iff_right accepted).symm
  case isFalse refused => exact iff_of_false (fun same => nomatch same) fun both => refused both.1

end Native

/-- A mask text can be read exactly if, without its blanks, it has letters and bars only and both
its ends, if it has any, are letters; its masks are then those of its groups, in order.  A function
with these masks accepts arguments exactly if it takes their number and each that has a group is
of a type that one of the letters of the group stands for. -/
theorem masks_exact :
    (∀ (spec : String) (masks : List UInt32), TypeMask.parse spec = .ok masks ↔
      TypeMask.Readable (TypeMask.bare spec.toList) ∧
        masks = (TypeMask.segments (TypeMask.bare spec.toList)).map TypeMask.union) ∧
    ∀ (spec : String) (native : Native), TypeMask.parse spec = .ok native.masks →
      ∀ arguments : List Value, native.checkArguments arguments = .ok () ↔
        arguments.length ∈ native.arity.counts ∧
        ∀ (position : Nat) (value : Value) (group : List Char),
          arguments[position]? = some value →
          (TypeMask.segments (TypeMask.bare spec.toList))[position]? = some group →
          ∃ letter ∈ group, letter ∈ value.maskLetters := by
  refine ⟨TypeMask.parse_eq_ok_iff, fun spec native parsed arguments => ?_⟩
  obtain ⟨readable, same⟩ := (TypeMask.parse_eq_ok_iff spec native.masks).mp parsed
  rw [Native.checkArguments_eq_ok_iff, same]
  generalize TypeMask.bare spec.toList = text at readable
  refine and_congr_right fun _ => ⟨fun all position value segment found grouped => ?_,
    fun all position value mask found masked => ?_⟩
  · have known := TypeMask.known_of_mem_segments readable.toBegins (List.mem_of_getElem? grouped)
    have admitted := all position value (TypeMask.union segment) found
      (by rw [TypeMask.masks, List.getElem?_map, grouped, Option.map_some])
    exact (TypeMask.admits_union_iff known value).mp admitted
  · rw [TypeMask.masks, List.getElem?_map] at masked
    obtain ⟨segment, grouped, rfl⟩ := Option.map_eq_some_iff.mp masked
    have known := TypeMask.known_of_mem_segments readable.toBegins (List.mem_of_getElem? grouped)
    exact (TypeMask.admits_union_iff known value).mpr (all position value segment found grouped)

/-- A function of two or more arguments, the second a string or a number. -/
def padding : Native where
  name := "pad"
  symbol := "pad"
  arity := .atLeast 2
  masks := [0xFFFFFFFF, 22]

theorem masks_exact_padding :
    TypeMask.parse ". s || n" = .ok padding.masks ∧
      padding.checkArguments [.null, .integer 7, .null] = .ok () ∧
      padding.checkArguments [.null, .bool true] ≠ .ok () := by
  have parsed : TypeMask.parse ". s || n" = .ok padding.masks := by decide
  have groups : TypeMask.segments (TypeMask.bare ". s || n".toList) =
      [['.'], ['s', '|', '|', 'n']] := by decide
  have checks := masks_exact.2 ". s || n" padding parsed
  rw [groups] at checks
  refine ⟨parsed, (checks _).mpr ⟨Nat.le_succ 2, ?_⟩, fun accepted => ?_⟩
  · intro position value group found grouped
    rcases position with _ | _ | position
    · obtain ⟨rfl, rfl⟩ : .null = value ∧ ['.'] = group := by
        simpa using And.intro found grouped
      exact ⟨'.', by decide, by decide⟩
    · obtain ⟨rfl, rfl⟩ : .integer 7 = value ∧ ['s', '|', '|', 'n'] = group := by
        simpa using And.intro found grouped
      exact ⟨'n', by decide, by decide⟩
    · simp at grouped
  · obtain ⟨letter, inside, own⟩ := ((checks _).mp accepted).2 1 (.bool true) _ rfl rfl
    simp [Value.maskLetters] at inside own
    rcases inside with rfl | rfl | rfl <;> simp at own

end ScriptMachine
