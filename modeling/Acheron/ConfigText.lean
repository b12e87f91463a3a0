import Acheron.CommandReading
import Acheron.MemorySize

/-!
# Configurations as command lines

A configuration can be written down as a command line: every option with the
value that it has, the numbers in decimal, then the binary and its arguments.
The parser gives the configuration back.

Results:
1. `Meaning.unique`: a reading leaves no choice about what is returned.
2. `parseArgs_commandLine`: the command line of a configuration is read back.
3. `config_roundTrip`: the configurations that the parser accepts are those that
   it reads back, and only the path of the binary decides which these are.
-/

namespace Acheron

open ArgLemmas Conversion ReadingLemmas SizeLemmas

/-! ## 1. One meaning -/

namespace ReadingLemmas

/-- A configuration is known by its fields, the flags among them. -/
theorem config_ext {c c' : Config} (hbinary : c.binaryPath = c'.binaryPath)
    (hargs : c.args = c'.args) (henv : c.envVars = c'.envVars) (hrootfs : c.rootfs = c'.rootfs)
    (hmemory : c.memorySize = c'.memorySize) (hcpus : c.cpuCount = c'.cpuCount)
    (hflags : ∀ f, c.flag f = c'.flag f) : c = c' := by
  have hdebug : c.debug = c'.debug := hflags .debug
  have hsyscalls : c.traceSyscalls = c'.traceSyscalls := hflags .traceSyscalls
  have hmem : c.traceMemory = c'.traceMemory := hflags .traceMemory
  have hregisters : c.showRegisters = c'.showRegisters := hflags .showRegisters
  cases c
  cases c'
  simp only [Config.mk.injEq]
  exact ⟨hbinary, hargs, henv, hrootfs, hmemory, hcpus, hdebug, hsyscalls, hmem, hregisters⟩

end ReadingLemmas

theorem Meaning.unique {U : Undefined} {program : String} {r : Reading} {ok ok' : Bool}
    {c c' : Config} {printed printed' : List Printed} (h : Meaning U program r ok c printed)
    (h' : Meaning U program r ok' c' printed') : ok = ok' ∧ c = c' ∧ printed = printed' := by
  refine ⟨?_, config_ext ?_ ?_ ?_ ?_ ?_ ?_ fun f => ?_, h.printed.trans h'.printed.symm⟩
  · rw [Bool.eq_iff_iff]
    exact h.accepted.trans h'.accepted.symm
  · exact h.binaryPath.trans h'.binaryPath.symm
  · exact h.args.trans h'.args.symm
  · exact h.envVars.trans h'.envVars.symm
  · exact Except.ok.inj (h.rootfs.symm.trans h'.rootfs)
  · exact Except.ok.inj (h.memorySize.symm.trans h'.memorySize)
  · exact Except.ok.inj (h.cpuCount.symm.trans h'.cpuCount)
  · rw [Bool.eq_iff_iff]
    exact (h.flags f).trans (h'.flags f).symm

/-! ## 2. Written and read back -/

def Flag.name : Flag → String
  | debug => "--debug"
  | traceSyscalls => "--trace-syscalls"
  | traceMemory => "--trace-memory"
  | showRegisters => "--show-registers"

def Flag.all : List Flag := [debug, traceSyscalls, traceMemory, showRegisters]

namespace Config

/-- The options of the configuration. -/
def items (config : Config) : List Item :=
  config.envVars.map (.value .env "--env") ++
    [.value .rootfs "--rootfs" config.rootfs,
      .value .memory "--memory" (showUnsigned config.memorySize),
      .value .cpus "--cpus" (showInt config.cpuCount)] ++
    (Flag.all.filter config.flag).map fun f => .plain f.name

/-- The command line that asks for the configuration, without the name of the
program. -/
def commandLine (config : Config) : List String :=
  tokens config.items ++ config.binaryPath :: config.args

end Config

/-- The path can name a binary on a command line. -/
def Nameable (path : String) : Prop := path ≠ "" ∧ firstChar path ≠ '-'

namespace ReadingLemmas

theorem classify_flag (f : Flag) : classify f.name = .sets f := by cases f <;> rfl

/-- The three options that are always written, and those before and behind them. -/
theorem mem_items {config : Config} {item : Item} (h : item ∈ config.items) :
    (∃ v ∈ config.envVars, item = .value .env "--env" v) ∨
      item = .value .rootfs "--rootfs" config.rootfs ∨
      item = .value .memory "--memory" (showUnsigned config.memorySize) ∨
      item = .value .cpus "--cpus" (showInt config.cpuCount) ∨
      ∃ f, config.flag f = true ∧ item = .plain f.name := by
  unfold Config.items at h
  rcases List.mem_append.mp h with h | hflag
  · rcases List.mem_append.mp h with henv | hsingle
    · obtain ⟨v, hv, rfl⟩ := List.mem_map.mp henv
      exact .inl ⟨v, hv, rfl⟩
    · simp only [List.mem_cons, List.not_mem_nil, or_false] at hsingle
      rcases hsingle with rfl | rfl | rfl
      · exact .inr (.inl rfl)
      · exact .inr (.inr (.inl rfl))
      · exact .inr (.inr (.inr (.inl rfl)))
  · obtain ⟨f, hf, rfl⟩ := List.mem_map.mp hflag
    exact .inr (.inr (.inr (.inr ⟨f, (List.mem_filter.mp hf).2, rfl⟩)))

theorem items_wellFormed (config : Config) : ∀ item ∈ config.items, item.WellFormed := by
  intro item hitem
  rcases mem_items hitem with ⟨v, -, rfl⟩ | rfl | rfl | rfl | ⟨f, -, rfl⟩
  · rfl
  · rfl
  · rfl
  · rfl
  · exact .inl ⟨f, classify_flag f⟩

/-- Digits without a unit are a number of bytes. -/
theorem parseSize_showUnsigned (U : Undefined) (v : BitVec 64) :
    parseSize U (showUnsigned v) = .ok v := by
  have hsplit := splitUnit_append (Nat.toDigits_ne_nil (n := v.toNat) (b := 10))
    (fun _ => Decimal.isDigit_of_mem) (show ([], 1) ∈ units by decide)
  rw [List.append_nil] at hsplit
  have hne : showUnsigned v ≠ "" := fun h => by
    have hdigits := congrArg String.toList h
    rw [showUnsigned, String.toList_ofList] at hdigits
    exact Nat.toDigits_ne_nil hdigits
  rw [parseSize_eq U hne, showUnsigned, String.toList_ofList, hsplit]
  show (stoull (showUnsigned v)).map _ = _
  rw [stoull_showUnsigned]
  exact congrArg Except.ok (BitVec.mul_one v)

/-- Every value is accepted. -/
theorem error_items (U : Undefined) (config : Config) :
    config.items.findSome? (Item.error U) = none := by
  refine List.findSome?_eq_none_iff.mpr fun item hitem => ?_
  rcases mem_items hitem with ⟨v, -, rfl⟩ | rfl | rfl | rfl | ⟨f, -, rfl⟩
  · rfl
  · rfl
  · show errorOf (parseSize U _) = none
    rw [parseSize_showUnsigned]
    rfl
  · show errorOf (stoi _) = none
    rw [stoi_showInt]
    rfl
  · rfl

theorem fromLast_singleton {α : Type} (parse : String → Except ConversionError α) (d : α)
    (v : String) : fromLast parse d [v] = parse v := rfl

theorem values_append (o : ValueOption) (xs ys : List Item) :
    values o (xs ++ ys) = values o xs ++ values o ys := List.flatMap_append

theorem values_env (vs : List String) : values .env (vs.map (.value .env "--env")) = vs := by
  unfold values
  rw [List.flatMap_map]
  exact List.flatMap_singleton' vs

/-- Items of another kind give nothing to the option. -/
theorem values_eq_nil {o : ValueOption} {items : List Item}
    (h : ∀ item ∈ items, item.given o = []) : values o items = [] :=
  List.flatMap_eq_nil_iff.mpr h

theorem values_env_nil {o : ValueOption} (ho : o ≠ .env) (vs : List String) :
    values o (vs.map (.value .env "--env")) = [] := by
  refine values_eq_nil fun item hitem => ?_
  obtain ⟨v, -, rfl⟩ := List.mem_map.mp hitem
  exact if_neg ho.symm

theorem values_flags (o : ValueOption) (fs : List Flag) :
    values o (fs.map fun f => .plain f.name) = [] := by
  refine values_eq_nil fun item hitem => ?_
  obtain ⟨f, -, rfl⟩ := List.mem_map.mp hitem
  rfl

/-- The values of an option come from the variables and the three single options. -/
theorem values_items (o : ValueOption) (config : Config) :
    values o config.items =
      values o (config.envVars.map (.value .env "--env")) ++
        values o [.value .rootfs "--rootfs" config.rootfs,
          .value .memory "--memory" (showUnsigned config.memorySize),
          .value .cpus "--cpus" (showInt config.cpuCount)] := by
  unfold Config.items
  rw [values_append, values_append, values_flags, List.append_nil]

end ReadingLemmas

/-- How the parser reads the command line of the configuration. -/
def Config.reading (config : Config) (hname : Nameable config.binaryPath) : Reading where
  items := config.items
  ending := .binary config.binaryPath config.args
  wellFormed := items_wellFormed config
  ends := classify_binary_iff.mpr hname.2

/-- It says what the configuration holds. -/
theorem meaning_reading (U : Undefined) (program : String) {config : Config}
    (hname : Nameable config.binaryPath) :
    Meaning U program (config.reading hname) true config [] where
  accepted := ⟨fun _ => hname.1, fun _ => rfl⟩
  printed := (if_neg hname.1).symm
  binaryPath := rfl
  args := rfl
  envVars := by
    have hvalues : values .env config.items = config.envVars ++ [] := by
      rw [values_items, values_env]
      rfl
    exact (hvalues.trans (List.append_nil _)).symm
  rootfs := by
    have hvalues : values .rootfs config.items = [config.rootfs] := by
      rw [values_items, values_env_nil (by decide)]
      rfl
    show fromLast .ok "" (values .rootfs config.items) = _
    rw [hvalues, fromLast_singleton]
  memorySize := by
    have hvalues : values .memory config.items = [showUnsigned config.memorySize] := by
      rw [values_items, values_env_nil (by decide)]
      rfl
    show fromLast (parseSize U) _ (values .memory config.items) = _
    rw [hvalues, fromLast_singleton, parseSize_showUnsigned]
  cpuCount := by
    have hvalues : values .cpus config.items = [showInt config.cpuCount] := by
      rw [values_items, values_env_nil (by decide)]
      rfl
    show fromLast stoi _ (values .cpus config.items) = _
    rw [hvalues, fromLast_singleton, stoi_showInt]
  flags f := by
    constructor
    · intro hf
      have hall : f ∈ Flag.all := by cases f <;> decide
      refine ⟨.plain f.name, List.mem_append_right _ ?_, classify_flag f⟩
      exact List.mem_map_of_mem (List.mem_filter.mpr ⟨hall, hf⟩)
    · rintro ⟨item, hitem, hsets⟩
      rcases mem_items hitem with ⟨v, -, rfl⟩ | rfl | rfl | rfl | ⟨f', hf', rfl⟩
      · cases hsets
      · cases hsets
      · cases hsets
      · cases hsets
      · have hsame := (classify_flag f').symm.trans hsets
        cases hsame
        exact hf'

/-- Whatever the program is called. -/
theorem parseArgs_commandLine (U : Undefined) (program : String) {config : Config}
    (hname : Nameable config.binaryPath) :
    parseArgs U (program :: config.commandLine) = .returned true config [] := by
  show parseArgs U (program :: (config.reading hname).tokens) = _
  cases hresult : parseArgs U (program :: (config.reading hname).tokens) with
  | threw e => cases (error_items U config).symm.trans (error_of_threw hresult)
  | returned ok c printed =>
    obtain ⟨-, hmeaning⟩ := meaning_of_returned hresult
    obtain ⟨rfl, rfl, rfl⟩ := hmeaning.unique (meaning_reading U program hname)
    rfl

example : ({ binaryPath := "./app", args := ["-h"], memorySize := 512, debug := true } :
    Config).commandLine =
      ["--rootfs", "", "--memory", "512", "--cpus", "1", "--debug", "./app", "-h"] := by decide

/-! ## 3. The accepted configurations -/

namespace ReadingLemmas

theorem nameable_of_accepted {U : Undefined} {argv : List String} {config : Config}
    {printed : List Printed} (h : parseArgs U argv = .returned true config printed) :
    Nameable config.binaryPath := by
  cases argv with
  | nil => cases h
  | cons program args =>
    rw [← tokens_readArgs args] at h
    obtain ⟨-, hmeaning⟩ := meaning_of_returned h
    have hname := hmeaning.accepted.mp rfl
    have hends := (readArgs args).ends
    rw [hmeaning.binaryPath]
    cases hending : (readArgs args).ending with
    | binary bin suffix =>
      rw [hending] at hname hends
      exact ⟨hname, classify_binary_iff.mp hends⟩
    | exhausted | dangling _ | info _ _ =>
      rw [hending] at hname
      exact absurd rfl hname

end ReadingLemmas

/-- A configuration can be asked for exactly when its own command line asks for
it. -/
theorem config_roundTrip (U : Undefined) (program : String) (config : Config) :
    List.TFAE [∃ argv printed, parseArgs U argv = .returned true config printed,
      parseArgs U (program :: config.commandLine) = .returned true config [],
      Nameable config.binaryPath] := by
  tfae_have 1 → 3 := fun ⟨_, _, h⟩ => nameable_of_accepted h
  tfae_have 3 → 2 := parseArgs_commandLine U program
  tfae_have 2 → 1 := fun h => ⟨_, _, h⟩
  tfae_finish

end Acheron
