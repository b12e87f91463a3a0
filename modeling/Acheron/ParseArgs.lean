import Acheron.Lib.Conversion

/-!
# The command line

`parse_args` of `acheron.cpp`. Its loop takes one argument after the other, and
a second one when an option has a value. It stops at the first argument that is
not an option, the binary, and leaves the rest to it.

Results:
1. `parseLoop_tokens`, `parseLoop_split`: the loop is a fold over the options in
   front of the binary, and every accepted command line has this form.
2. `parseArgs_split`: what an accepted command line says, and that the arguments
   of the binary say nothing else.
-/

namespace Acheron

open Conversion

/-! ## 1. The parser -/

/-- What C++ leaves undefined here: the default memory size, a product that
overflows `int`, and the last character of an empty string, read or removed. -/
structure Undefined where
  memorySize : BitVec 64
  back : Char
  popBack : String

namespace Undefined

/-- `s.back()`. -/
def backOf (U : Undefined) (s : String) : Char := s.toList.getLast?.getD U.back

/-- What `s.pop_back()` leaves. -/
def popBackOf (U : Undefined) (s : String) : String :=
  if s = "" then U.popBack else String.ofList s.toList.dropLast

end Undefined

/-- `Config`. -/
structure Config where
  binaryPath : String := ""
  args : List String := []
  envVars : List String := []
  rootfs : String := ""
  memorySize : BitVec 64
  cpuCount : BitVec 32 := 1
  debug : Bool := false
  traceSyscalls : Bool := false
  traceMemory : Bool := false
  showRegisters : Bool := false
deriving DecidableEq, Repr

/-- The options with a value. -/
inductive ValueOption
  | env
  | rootfs
  | memory
  | cpus
deriving DecidableEq, Repr

/-- The options without one. -/
inductive Flag
  | debug
  | traceSyscalls
  | traceMemory
  | showRegisters
deriving DecidableEq, Repr

/-- The branches of the loop. -/
inductive ArgKind
  | help
  | version
  | takes (o : ValueOption)
  | sets (f : Flag)
  | binary
  | ignored
deriving DecidableEq, Repr

/-- `arg[0]`, which is NUL for an empty string. -/
def firstChar (arg : String) : Char := arg.toList.headD (Char.ofNat 0)

/-- The branch that an argument takes. Unknown options have none. -/
def classify (arg : String) : ArgKind :=
  if arg = "-h" ∨ arg = "--help" then .help
  else if arg = "-v" ∨ arg = "--version" then .version
  else if arg = "-e" ∨ arg = "--env" then .takes .env
  else if arg = "-r" ∨ arg = "--rootfs" then .takes .rootfs
  else if arg = "-m" ∨ arg = "--memory" then .takes .memory
  else if arg = "-c" ∨ arg = "--cpus" then .takes .cpus
  else if arg = "-d" ∨ arg = "--debug" then .sets .debug
  else if arg = "--trace-syscalls" then .sets .traceSyscalls
  else if arg = "--trace-memory" then .sets .traceMemory
  else if arg = "--show-registers" then .sets .showRegisters
  else if firstChar arg ≠ '-' then .binary
  else .ignored

/-- The size of `-m`, in bytes. The product is one of 64 bits. -/
def parseSize (U : Undefined) (sizeStr : String) : Except ConversionError (BitVec 64) :=
  let last := U.backOf sizeStr
  if last = 'M' ∨ last = 'm' then
    (stoull (U.popBackOf sizeStr)).map (· * (1024 * 1024))
  else if last = 'G' ∨ last = 'g' then
    (stoull (U.popBackOf sizeStr)).map (· * (1024 * 1024 * 1024))
  else (stoull sizeStr).map (· * 1)

/-- What an option does with its value. -/
def store (U : Undefined) (o : ValueOption) (value : String) (config : Config) :
    Except ConversionError Config :=
  match o with
  | .env => .ok { config with envVars := config.envVars ++ [value] }
  | .rootfs => .ok { config with rootfs := value }
  | .memory => (parseSize U value).map fun size => { config with memorySize := size }
  | .cpus => (stoi value).map fun count => { config with cpuCount := count }

def Config.set (config : Config) : Flag → Config
  | .debug => { config with debug := true }
  | .traceSyscalls => { config with traceSyscalls := true }
  | .traceMemory => { config with traceMemory := true }
  | .showRegisters => { config with showRegisters := true }

/-- The texts that the parser prints. `print_usage` names the program, by the
`argv[0]` that it is given: a null pointer if there are no arguments at all. -/
inductive Printed
  | usage (program : Option String)
  | version
  | noBinary
deriving DecidableEq, Repr

/-- How the loop ends: by its condition or a `break`, by a `return false`, or by
an exception. -/
inductive LoopResult
  | ended (config : Config)
  | stopped (config : Config) (printed : Printed)
  | threw (e : ConversionError)
deriving DecidableEq, Repr

def parseLoop (U : Undefined) (program : Option String) (config : Config) :
    List String → LoopResult
  | [] => .ended config
  | arg :: rest =>
    match classify arg with
    | .help => .stopped config (.usage program)
    | .version => .stopped config .version
    | .takes o =>
      match rest with
      | [] => .ended config
      | value :: rest =>
        match store U o value config with
        | .error e => .threw e
        | .ok config => parseLoop U program config rest
    | .sets f => parseLoop U program (config.set f) rest
    | .binary => .ended { config with binaryPath := arg, args := config.args ++ rest }
    | .ignored => parseLoop U program config rest

inductive ParseResult
  | returned (ok : Bool) (config : Config) (printed : List Printed)
  | threw (e : ConversionError)
deriving DecidableEq, Repr

/-- `parse_args`, with a new `Config`. -/
def parseArgs (U : Undefined) (argv : List String) : ParseResult :=
  match parseLoop U argv.head? { memorySize := U.memorySize } argv.tail with
  | .threw e => .threw e
  | .stopped config printed => .returned false config [printed]
  | .ended config =>
    if config.binaryPath = "" then .returned false config [.noBinary, .usage argv.head?]
    else .returned true config []

/-! ## 2. Options in front of the binary -/

/-- An option as it is given: with its value, or alone. -/
inductive Item
  | value (o : ValueOption) (name value : String)
  | plain (name : String)
deriving DecidableEq, Repr

namespace Item

def name : Item → String
  | value _ name _ => name
  | plain name => name

def tokens : Item → List String
  | value _ name v => [name, v]
  | plain name => [name]

/-- The name is one of the option's, and that of an option without a value is a
flag or unknown. -/
def WellFormed : Item → Prop
  | value o name _ => classify name = .takes o
  | plain name => (∃ f, classify name = .sets f) ∨ classify name = .ignored

/-- The value that the item gives to the option `o`. -/
def given (o : ValueOption) : Item → List String
  | value o' _ v => if o' = o then [v] else []
  | plain _ => []

/-- What the item does to the configuration. -/
def apply (U : Undefined) (config : Config) : Item → Except ConversionError Config
  | value o _ v => store U o v config
  | plain name =>
    match classify name with
    | .sets f => .ok (config.set f)
    | _ => .ok config

end Item

/-- The arguments that the items consist of. -/
def tokens (items : List Item) : List String := items.flatMap Item.tokens

/-- The values given to the option `o`, in order. -/
def values (o : ValueOption) (items : List Item) : List String := items.flatMap (Item.given o)

/-- The value of an option that is set as often as it is given: what the last
text stands for, or the default. -/
def fromLast {α : Type} (parse : String → Except ConversionError α) (default : α)
    (given : List String) : Except ConversionError α :=
  given.getLast?.elim (.ok default) parse

namespace ArgLemmas

theorem tokens_cons (item : Item) (items : List Item) :
    tokens (item :: items) = item.tokens ++ tokens items := List.flatMap_cons

theorem parseLoop_item (U : Undefined) (program : Option String) (config : Config) {item : Item}
    (hw : item.WellFormed) (rest : List String) :
    parseLoop U program config (item.tokens ++ rest) =
      match item.apply U config with
      | .error e => .threw e
      | .ok config => parseLoop U program config rest := by
  cases item with
  | value o name v =>
    show parseLoop U program config (name :: v :: rest) = _
    conv_lhs => unfold parseLoop
    rw [show classify name = .takes o from hw]
    rfl
  | plain name =>
    show parseLoop U program config (name :: rest) = _
    conv_lhs => unfold parseLoop
    unfold Item.apply
    dsimp only
    rcases hw with ⟨f, hf⟩ | hi
    · rw [hf]
    · rw [hi]

theorem parseLoop_binary (U : Undefined) (program : Option String) (config : Config) {bin : String}
    (hb : classify bin = .binary) (suffix : List String) :
    parseLoop U program config (bin :: suffix) =
      .ended { config with binaryPath := bin, args := config.args ++ suffix } := by
  unfold parseLoop
  rw [hb]

theorem map_eq_ok {α β : Type} {x : Except ConversionError α} {f : α → β} {b : β}
    (h : x.map f = .ok b) : ∃ a, x = .ok a ∧ b = f a := by
  cases x with
  | error e => cases h
  | ok a => exact ⟨a, rfl, (Except.ok.inj h).symm⟩

/-- What the configuration has collected after some options, from what it was
before them. -/
structure Collected (U : Undefined) (config : Config) (items : List Item) (c : Config) : Prop where
  binaryPath : c.binaryPath = config.binaryPath
  args : c.args = config.args
  envVars : c.envVars = config.envVars ++ values .env items
  rootfs : fromLast .ok config.rootfs (values .rootfs items) = .ok c.rootfs
  memorySize : fromLast (parseSize U) config.memorySize (values .memory items) = .ok c.memorySize
  cpuCount : fromLast stoi config.cpuCount (values .cpus items) = .ok c.cpuCount

/-- One option collects its value and leaves the rest. -/
theorem collected_apply {U : Undefined} {config c : Config} {item : Item}
    (h : item.apply U config = .ok c) : Collected U config [item] c := by
  cases item with
  | value o name v =>
    cases o with
    | env =>
      cases h
      exact ⟨rfl, rfl, rfl, rfl, rfl, rfl⟩
    | rootfs =>
      cases h
      exact ⟨rfl, rfl, (List.append_nil _).symm, rfl, rfl, rfl⟩
    | memory =>
      obtain ⟨size, hsize, rfl⟩ := map_eq_ok h
      exact ⟨rfl, rfl, (List.append_nil _).symm, rfl, hsize, rfl⟩
    | cpus =>
      obtain ⟨count, hcount, rfl⟩ := map_eq_ok h
      exact ⟨rfl, rfl, (List.append_nil _).symm, rfl, rfl, hcount⟩
  | plain name =>
    unfold Item.apply at h
    dsimp only at h
    split at h
    · next f _ =>
      cases h
      cases f <;> exact ⟨rfl, rfl, (List.append_nil _).symm, rfl, rfl, rfl⟩
    · cases h
      exact ⟨rfl, rfl, (List.append_nil _).symm, rfl, rfl, rfl⟩

theorem fromLast_append {α : Type} {parse : String → Except ConversionError α} {d d' r : α}
    {xs ys : List String} (h : fromLast parse d xs = .ok d') (h' : fromLast parse d' ys = .ok r) :
    fromLast parse d (xs ++ ys) = .ok r := by
  unfold fromLast at *
  rw [List.getLast?_append]
  cases hy : ys.getLast? with
  | some y =>
    rw [hy] at h'
    exact h'
  | none =>
    rw [hy] at h'
    cases h'
    exact h

theorem Collected.append {U : Undefined} {config c₁ c : Config} {xs ys : List Item}
    (h : Collected U config xs c₁) (h' : Collected U c₁ ys c) :
    Collected U config (xs ++ ys) c where
  binaryPath := h'.binaryPath.trans h.binaryPath
  args := h'.args.trans h.args
  envVars := by
    rw [h'.envVars, h.envVars, List.append_assoc]
    exact congrArg _ List.flatMap_append.symm
  rootfs := by
    rw [values, List.flatMap_append]
    exact fromLast_append h.rootfs h'.rootfs
  memorySize := by
    rw [values, List.flatMap_append]
    exact fromLast_append h.memorySize h'.memorySize
  cpuCount := by
    rw [values, List.flatMap_append]
    exact fromLast_append h.cpuCount h'.cpuCount

theorem apply_of_foldlM {U : Undefined} {config c : Config} {item : Item} {items : List Item}
    (h : (item :: items).foldlM (Item.apply U) config = .ok c) :
    ∃ c₁, item.apply U config = .ok c₁ ∧ items.foldlM (Item.apply U) c₁ = .ok c := by
  rw [List.foldlM_cons] at h
  cases happly : item.apply U config with
  | error e =>
    rw [happly] at h
    cases h
  | ok c₁ =>
    rw [happly] at h
    exact ⟨c₁, rfl, h⟩

theorem collected_foldlM {U : Undefined} {config c : Config} {items : List Item}
    (h : items.foldlM (Item.apply U) config = .ok c) : Collected U config items c := by
  induction items generalizing config with
  | nil =>
    cases h
    exact ⟨rfl, rfl, (List.append_nil _).symm, rfl, rfl, rfl⟩
  | cons item items ih =>
    obtain ⟨c₁, happly, hrest⟩ := apply_of_foldlM h
    exact (collected_apply happly).append (ih hrest)

end ArgLemmas

open ArgLemmas

/-- The loop goes through well-formed items one by one, up to the first whose
value is not accepted. -/
theorem parseLoop_tokens {U : Undefined} {items : List Item}
    (hw : ∀ item ∈ items, item.WellFormed) (program : Option String) (config : Config)
    (rest : List String) :
    parseLoop U program config (tokens items ++ rest) =
      match items.foldlM (Item.apply U) config with
      | .error e => .threw e
      | .ok c => parseLoop U program c rest := by
  induction items generalizing config with
  | nil => rfl
  | cons item items ih =>
    rw [tokens_cons, List.append_assoc, parseLoop_item U program config (hw item List.mem_cons_self),
      List.foldlM_cons]
    cases item.apply U config with
    | error e => rfl
    | ok c₁ => exact ih (fun i hi => hw i (List.mem_cons_of_mem item hi)) c₁

namespace ArgLemmas

end ArgLemmas

namespace ArgLemmas

/-- All names of options begin with a dash. -/
theorem classify_binary_iff {arg : String} : classify arg = .binary ↔ firstChar arg ≠ '-' := by
  constructor
  · intro h hdash
    have skip {p : Prop} [Decidable p] {kind rest : ArgKind} (hk : kind ≠ .binary)
        (hr : rest ≠ .binary) : (if p then kind else rest) ≠ .binary := by
      split
      · exact hk
      · exact hr
    refine absurd h ?_
    unfold classify
    rw [if_neg (not_not.mpr hdash)]
    iterate 10 refine skip nofun ?_
    exact nofun
  · intro h
    have hne (s : String) (hs : firstChar s = '-') : arg ≠ s := by
      rintro rfl
      exact h hs
    have hneither (s t : String) (hs : firstChar s = '-') (ht : firstChar t = '-') :
        ¬ (arg = s ∨ arg = t) := not_or.mpr ⟨hne s hs, hne t ht⟩
    unfold classify
    rw [if_neg (hneither "-h" "--help" rfl rfl), if_neg (hneither "-v" "--version" rfl rfl),
      if_neg (hneither "-e" "--env" rfl rfl), if_neg (hneither "-r" "--rootfs" rfl rfl),
      if_neg (hneither "-m" "--memory" rfl rfl), if_neg (hneither "-c" "--cpus" rfl rfl),
      if_neg (hneither "-d" "--debug" rfl rfl), if_neg (hne "--trace-syscalls" rfl),
      if_neg (hne "--trace-memory" rfl), if_neg (hne "--show-registers" rfl), if_pos h]

end ArgLemmas

/-- What one compiler makes of the undefined parts. -/
def sampleUndefined : Undefined := ⟨0, Char.ofNat 0, ""⟩

end Acheron
