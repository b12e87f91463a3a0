import Acheron.ParseArgs

/-!
# Readings of a command line

What an argument means to `parse_args` depends on the arguments before it: it is
an option, the value of one, the binary, or left to the binary. A reading says
which is which. Readings are another way to write command lines, and
`parse_args` goes by them.

Results:
1. `reading_unique`: every command line has one reading, so that a statement
   about readings is one about command lines.
2. `parseArgs_reading`: what `parse_args` makes of a reading, accepted or not.
   Values are converted as they come, so the first wrong one is thrown, and what
   stands behind the ending is not looked at.
-/

namespace Acheron

open Conversion ArgLemmas

/-! ## 1. Readings -/

/-- How a command line goes on where its options end. -/
inductive Ending
  | exhausted
  /-- An option without the value that it needs. -/
  | dangling (name : String)
  /-- `--help` or `--version`, with whatever follows. -/
  | info (name : String) (rest : List String)
  | binary (bin : String) (suffix : List String)
deriving DecidableEq, Repr

namespace Ending

def tokens : Ending → List String
  | exhausted => []
  | dangling name => [name]
  | info name rest => name :: rest
  | binary bin suffix => bin :: suffix

def WellFormed : Ending → Prop
  | exhausted => True
  | dangling name => ∃ o, classify name = .takes o
  | info name _ => classify name = .help ∨ classify name = .version
  | binary bin _ => classify bin = .binary

/-- The path of the binary, or nothing if the parser does not get to one. -/
def binaryPath : Ending → String
  | binary bin _ => bin
  | _ => ""

/-- The arguments that are left to the binary. -/
def suffix : Ending → List String
  | binary _ suffix => suffix
  | _ => []

/-- What the parser prints at the end, for a program of that name. -/
def printed (program : String) : Ending → List Printed
  | info name _ => if classify name = .help then [.usage program] else [.version]
  | ending => if ending.binaryPath = "" then [.noBinary, .usage program] else []

end Ending

/-- Options, and how they end. -/
@[ext]
structure Reading where
  items : List Item
  ending : Ending
  wellFormed : ∀ item ∈ items, item.WellFormed
  ends : ending.WellFormed

/-- The command line that is read so, without the name of the program. -/
def Reading.tokens (r : Reading) : List String := Acheron.tokens r.items ++ r.ending.tokens

/-- One item in front of what has been read of the rest. -/
def consItem (item : Item) (r : List Item × Ending) : List Item × Ending := (item :: r.1, r.2)

def readItems : List String → List Item × Ending
  | [] => ([], .exhausted)
  | arg :: rest =>
    match classify arg with
    | .help | .version => ([], .info arg rest)
    | .takes o =>
      match rest with
      | [] => ([], .dangling arg)
      | value :: rest => consItem (.value o arg value) (readItems rest)
    | .sets _ | .ignored => consItem (.plain arg) (readItems rest)
    | .binary => ([], .binary arg rest)

namespace ReadingLemmas

theorem wellFormed_consItem (item : Item) {r : List Item × Ending} (hw : item.WellFormed)
    (h : (∀ i ∈ r.1, i.WellFormed) ∧ r.2.WellFormed) :
    (∀ i ∈ (consItem item r).1, i.WellFormed) ∧ (consItem item r).2.WellFormed := by
  refine ⟨fun i hi => ?_, h.2⟩
  rcases List.mem_cons.mp hi with rfl | hi
  · exact hw
  · exact h.1 i hi

theorem readItems_wellFormed (args : List String) :
    (∀ item ∈ (readItems args).1, item.WellFormed) ∧ (readItems args).2.WellFormed := by
  fun_induction readItems args with
  | case1 => exact ⟨nofun, trivial⟩
  | case2 arg rest harg => exact ⟨nofun, .inl harg⟩
  | case3 arg rest harg => exact ⟨nofun, .inr harg⟩
  | case4 arg o harg => exact ⟨nofun, o, harg⟩
  | case5 arg o harg value rest ih => exact wellFormed_consItem (.value o arg value) harg ih
  | case6 arg rest f harg ih => exact wellFormed_consItem (.plain arg) (Or.inl ⟨f, harg⟩) ih
  | case7 arg rest harg ih => exact wellFormed_consItem (.plain arg) (Or.inr harg) ih
  | case8 arg rest harg => exact ⟨nofun, harg⟩

theorem tokens_consItem (item : Item) {r : List Item × Ending} {args : List String}
    (h : tokens r.1 ++ r.2.tokens = args) :
    tokens (consItem item r).1 ++ (consItem item r).2.tokens = item.tokens ++ args := by
  show tokens (item :: r.1) ++ r.2.tokens = _
  rw [tokens_cons, List.append_assoc, h]

theorem tokens_readItems (args : List String) :
    tokens (readItems args).1 ++ (readItems args).2.tokens = args := by
  fun_induction readItems args with
  | case1 | case2 | case3 | case4 | case8 => rfl
  | case5 arg o harg value rest ih => exact tokens_consItem (.value o arg value) ih
  | case6 arg rest f harg ih => exact tokens_consItem (.plain arg) ih
  | case7 arg rest harg ih => exact tokens_consItem (.plain arg) ih

theorem readItems_item {item : Item} (hw : item.WellFormed) (rest : List String) :
    readItems (item.tokens ++ rest) = consItem item (readItems rest) := by
  cases item with
  | value o name v =>
    show readItems (name :: v :: rest) = _
    conv_lhs => unfold readItems
    rw [show classify name = .takes o from hw]
  | plain name =>
    show readItems (name :: rest) = _
    conv_lhs => unfold readItems
    rcases hw with ⟨f, hf⟩ | hi
    · rw [hf]
    · rw [hi]

theorem readItems_ending {ending : Ending} (he : ending.WellFormed) :
    readItems ending.tokens = ([], ending) := by
  cases ending with
  | exhausted => rfl
  | dangling name =>
    obtain ⟨o, ho⟩ := he
    unfold Ending.tokens readItems
    rw [ho]
  | info name rest =>
    unfold Ending.tokens readItems
    rcases he with hhelp | hversion
    · rw [hhelp]
    · rw [hversion]
  | binary bin suffix =>
    unfold Ending.tokens readItems
    rw [show classify bin = .binary from he]

theorem readItems_tokens {items : List Item} (hw : ∀ item ∈ items, item.WellFormed)
    {ending : Ending} (he : ending.WellFormed) :
    readItems (tokens items ++ ending.tokens) = (items, ending) := by
  induction items with
  | nil => exact readItems_ending he
  | cons item items ih =>
    obtain ⟨hitem, hitems⟩ := List.forall_mem_cons.mp hw
    rw [tokens_cons, List.append_assoc, readItems_item hitem, ih hitems]
    rfl

end ReadingLemmas

open ReadingLemmas

/-- The reading of a command line. -/
def readArgs (args : List String) : Reading where
  items := (readItems args).1
  ending := (readItems args).2
  wellFormed := (readItems_wellFormed args).1
  ends := (readItems_wellFormed args).2

theorem tokens_readArgs (args : List String) : (readArgs args).tokens = args :=
  tokens_readItems args

theorem readArgs_tokens (r : Reading) : readArgs r.tokens = r :=
  Reading.ext (congrArg Prod.fst (readItems_tokens r.wellFormed r.ends))
    (congrArg Prod.snd (readItems_tokens r.wellFormed r.ends))

/-- The words "the reading of a command line" mean something. -/
theorem reading_unique (args : List String) : ∃! r : Reading, r.tokens = args :=
  ⟨readArgs args, tokens_readArgs args, fun r hr => hr ▸ (readArgs_tokens r).symm⟩

/-! ## 2. What a reading says -/

def Config.flag (config : Config) : Flag → Bool
  | .debug => config.debug
  | .traceSyscalls => config.traceSyscalls
  | .traceMemory => config.traceMemory
  | .showRegisters => config.showRegisters

/-- The configuration after the ending. -/
def Config.finish (config : Config) (ending : Ending) : Config :=
  { config with binaryPath := ending.binaryPath, args := config.args ++ ending.suffix }

/-- How the loop ends. -/
def Ending.loopResult (program : Option String) (config : Config) : Ending → LoopResult
  | info name _ => .stopped config (if classify name = .help then .usage program else .version)
  | ending => .ended (config.finish ending)

def errorOf {α ε : Type} : Except ε α → Option ε
  | .error e => some e
  | .ok _ => none

namespace Item

/-- The exception that the value of the item causes. -/
def error (U : Undefined) : Item → Option ConversionError
  | value .memory _ v => errorOf (parseSize U v)
  | value .cpus _ v => errorOf (stoi v)
  | _ => none

def Sets (f : Flag) : Item → Prop
  | value _ _ _ => False
  | plain name => classify name = .sets f

end Item

/-- What `parse_args` returns for a reading. -/
structure Meaning (U : Undefined) (program : String) (r : Reading) (ok : Bool) (config : Config)
    (printed : List Printed) : Prop where
  accepted : ok = true ↔ r.ending.binaryPath ≠ ""
  printed : printed = r.ending.printed program
  binaryPath : config.binaryPath = r.ending.binaryPath
  args : config.args = r.ending.suffix
  envVars : config.envVars = values .env r.items
  rootfs : fromLast .ok "" (values .rootfs r.items) = .ok config.rootfs
  memorySize : fromLast (parseSize U) U.memorySize (values .memory r.items) = .ok config.memorySize
  cpuCount : fromLast stoi 1 (values .cpus r.items) = .ok config.cpuCount
  flags : ∀ f, config.flag f = true ↔ ∃ item ∈ r.items, item.Sets f

namespace ReadingLemmas

theorem errorOf_map {α β ε : Type} (x : Except ε α) (f : α → β) :
    errorOf (x.map f) = errorOf x := by
  cases x <;> rfl

/-- Whether a value is accepted does not depend on what is in front of it. -/
theorem errorOf_apply (U : Undefined) (config : Config) (item : Item) :
    errorOf (item.apply U config) = item.error U := by
  cases item with
  | value o name v =>
    cases o with
    | env | rootfs => rfl
    | memory => exact errorOf_map (parseSize U v) _
    | cpus => exact errorOf_map (stoi v) _
  | plain name =>
    unfold Item.apply
    dsimp only
    split <;> rfl

theorem errorOf_foldlM (U : Undefined) (config : Config) (items : List Item) :
    errorOf (items.foldlM (Item.apply U) config) = items.findSome? (Item.error U) := by
  induction items generalizing config with
  | nil => rfl
  | cons item items ih =>
    have hitem := errorOf_apply U config item
    rw [List.foldlM_cons]
    cases happly : item.apply U config with
    | error e =>
      rw [happly] at hitem
      rw [List.findSome?_cons, ← hitem]
      rfl
    | ok c₁ =>
      rw [happly] at hitem
      rw [List.findSome?_cons, ← hitem]
      exact ih c₁

theorem flag_set (config : Config) (f f' : Flag) :
    (config.set f).flag f' = true ↔ config.flag f' = true ∨ f = f' := by
  cases f <;> cases f' <;> simp [Config.set, Config.flag]

theorem flag_apply {U : Undefined} {config c : Config} {item : Item}
    (h : item.apply U config = .ok c) (f : Flag) :
    c.flag f = true ↔ config.flag f = true ∨ item.Sets f := by
  cases item with
  | value o name v =>
    have hflag : c.flag f = config.flag f := by
      cases o with
      | env | rootfs =>
        cases h
        cases f <;> rfl
      | memory | cpus =>
        obtain ⟨_, -, rfl⟩ := map_eq_ok h
        cases f <;> rfl
    rw [hflag]
    exact (or_iff_left id).symm
  | plain name =>
    unfold Item.apply at h
    dsimp only at h
    unfold Item.Sets
    dsimp only
    split at h
    · next f' hf' =>
      cases h
      rw [flag_set, hf', ArgKind.sets.injEq]
    · next hnot =>
      cases h
      exact (or_iff_left (hnot f)).symm

theorem flag_foldlM {U : Undefined} {config c : Config} {items : List Item}
    (h : items.foldlM (Item.apply U) config = .ok c) (f : Flag) :
    c.flag f = true ↔ config.flag f = true ∨ ∃ item ∈ items, item.Sets f := by
  induction items generalizing config with
  | nil =>
    cases h
    simp
  | cons item items ih =>
    obtain ⟨c₁, happly, hrest⟩ := apply_of_foldlM h
    rw [ih hrest, flag_apply happly, List.exists_mem_cons_iff, or_assoc]

/-- Without a binary, the configuration is left as it is. -/
theorem finish_of_none {config : Config} (hnew : config.binaryPath = "") {ending : Ending}
    (hpath : ending.binaryPath = "") (hsuffix : ending.suffix = []) :
    config.finish ending = config := by
  unfold Config.finish
  rw [hpath, hsuffix, List.append_nil, ← hnew]

theorem parseLoop_ending (U : Undefined) (program : Option String) {config : Config}
    (hnew : config.binaryPath = "") {ending : Ending} (he : ending.WellFormed) :
    parseLoop U program config ending.tokens = ending.loopResult program config := by
  cases ending with
  | exhausted =>
    exact congrArg LoopResult.ended (finish_of_none hnew rfl rfl).symm
  | dangling name =>
    unfold Ending.tokens parseLoop
    obtain ⟨o, ho⟩ := he
    rw [ho]
    exact congrArg LoopResult.ended (finish_of_none hnew rfl rfl).symm
  | info name rest =>
    unfold Ending.tokens parseLoop Ending.loopResult
    dsimp only
    rcases he with hhelp | hversion
    · rw [hhelp]
      rfl
    · rw [hversion]
      rfl
  | binary bin suffix => exact parseLoop_binary U program config he suffix

/-- The options first, and then their end. -/
theorem parseArgs_tokens (U : Undefined) (program : String) (r : Reading) :
    parseArgs U (program :: r.tokens) =
      match r.items.foldlM (Item.apply U) { memorySize := U.memorySize } with
      | .error e => .threw e
      | .ok c =>
        .returned (r.ending.binaryPath ≠ "") (c.finish r.ending) (r.ending.printed program) := by
  unfold parseArgs Reading.tokens
  rw [List.head?_cons, List.tail_cons, parseLoop_tokens r.wellFormed]
  cases hfold : r.items.foldlM (Item.apply U) { memorySize := U.memorySize } with
  | error e => rfl
  | ok c =>
    have hnew : c.binaryPath = "" := (collected_foldlM hfold).binaryPath
    dsimp only
    rw [parseLoop_ending U _ hnew r.ends]
    cases hending : r.ending with
    | exhausted | dangling _ => rfl
    | info name rest =>
      rw [finish_of_none hnew rfl rfl]
      unfold Ending.loopResult Ending.printed
      dsimp only
      split <;> rfl
    | binary bin suffix =>
      show (if bin = "" then ParseResult.returned false _ _ else _) =
        ParseResult.returned (bin ≠ "") _ (if bin = "" then _ else [])
      by_cases hbin : bin = ""
      · rw [if_pos hbin, if_pos hbin, decide_eq_false (not_not.mpr hbin)]
      · rw [if_neg hbin, if_neg hbin, decide_eq_true hbin]

theorem error_of_threw {U : Undefined} {program : String} {r : Reading} {e : ConversionError}
    (h : parseArgs U (program :: r.tokens) = .threw e) :
    r.items.findSome? (Item.error U) = some e := by
  have herror := errorOf_foldlM U { memorySize := U.memorySize } r.items
  rw [parseArgs_tokens] at h
  cases hfold : r.items.foldlM (Item.apply U) { memorySize := U.memorySize } with
  | error e' =>
    rw [hfold] at herror h
    cases h
    exact herror.symm
  | ok c =>
    rw [hfold] at h
    cases h

theorem meaning_of_returned {U : Undefined} {program : String} {r : Reading} {ok : Bool}
    {config : Config} {printed : List Printed}
    (h : parseArgs U (program :: r.tokens) = .returned ok config printed) :
    r.items.findSome? (Item.error U) = none ∧ Meaning U program r ok config printed := by
  have herror := errorOf_foldlM U { memorySize := U.memorySize } r.items
  rw [parseArgs_tokens] at h
  cases hfold : r.items.foldlM (Item.apply U) { memorySize := U.memorySize } with
  | error e =>
    rw [hfold] at h
    cases h
  | ok c =>
    rw [hfold] at herror h
    cases h
    have hc := collected_foldlM hfold
    refine ⟨herror.symm, decide_eq_true_iff, rfl, rfl, ?_, hc.envVars, hc.rootfs, hc.memorySize,
      hc.cpuCount, fun f => ?_⟩
    · show c.args ++ r.ending.suffix = r.ending.suffix
      rw [show c.args = [] from hc.args, List.nil_append]
    · refine Iff.trans ?_ ((flag_foldlM hfold f).trans (or_iff_right ?_))
      · cases f <;> rfl
      · cases f <;> exact Bool.false_ne_true

end ReadingLemmas

theorem parseArgs_reading (U : Undefined) (program : String) (r : Reading) :
    match parseArgs U (program :: r.tokens) with
    | .threw e => r.items.findSome? (Item.error U) = some e
    | .returned ok config printed =>
      r.items.findSome? (Item.error U) = none ∧ Meaning U program r ok config printed := by
  split
  · next e h => exact error_of_threw h
  · next ok config printed h => exact meaning_of_returned h

end Acheron
