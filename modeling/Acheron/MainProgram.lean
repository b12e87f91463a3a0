import Acheron.CommandReading
import Acheron.LoadElf
import Acheron.SystemRegisters

/-!
# The program

`main` of `acheron.cpp`, which parses its command line, checks the header of the
binary and shows what it has found. There is no execution yet.

Results:
1. `main_outcome`: when the program gets as far as the binary, and which reason
   it gives if it does not.
2. `main_ignores`: the environment, the trace options and the arguments of the
   binary make no difference.
-/

namespace Acheron

open Conversion ArgLemmas ReadingLemmas LoadLemmas

/-! ## 1. The entry point -/

/-- What the program shows, without its fixed texts. -/
inductive Shown
  | parser (printed : Printed)
  | options (binaryPath : String) (megabytes : BitVec 64) (cpuCount : BitVec 32) (rootfs : String)
  | loader (message : String)
  | elf (isArm64 : Bool) (entryPoint fileSize : BitVec 64)
  | running (binaryPath : String) (entryPoint : BitVec 64)
  | registers (state : ARM64SystemRegisterState)
deriving DecidableEq, Repr

inductive MainResult
  | exited (code : Nat) (shown : List Shown)
  | threw (e : ConversionError)
deriving DecidableEq, Repr

/-- The first part of the debug output. -/
def showOptions (config : Config) : List Shown :=
  if config.debug then
    [.options config.binaryPath (config.memorySize / (1024 * 1024)) config.cpuCount config.rootfs]
  else []

/-- The second part of the debug output. -/
def showELF (config : Config) (elf : ELFInfo) : List Shown :=
  if config.debug then [.elf elf.isArm64 elf.entryPoint elf.fileSize] else []

def showRegisters (config : Config) (sysreg : SystemRegisterEmulator) : List Shown :=
  if config.showRegisters then [.registers sysreg.state] else []

/-- `main` once the command line has been parsed. -/
def afterParsing (files : FileSystem) (uninit : Header) : ParseResult → MainResult
  | .threw e => .threw e
  | .returned false _ printed => .exited 1 (printed.map .parser)
  | .returned true config printed =>
    let (elf, error) := loadElf files uninit config.binaryPath
    let loaded := printed.map .parser ++ showOptions config ++
      error.toList.map fun e => .loader (e.message config.binaryPath)
    if !elf.valid then .exited 1 loaded
    else
      let sysreg := SystemRegisterEmulator.new
      .exited 0 (loaded ++ showELF config elf ++ [.running config.binaryPath elf.entryPoint] ++
        showRegisters config sysreg)

def main (U : Undefined) (files : FileSystem) (uninit : Header) (argv : List String) :
    MainResult :=
  afterParsing files uninit (parseArgs U argv)

/-! ## 2. How far it gets -/

/-- The reading names a binary, and its file passes the checks. -/
structure Runs (files : FileSystem) (uninit : Header) (r : Reading) (file : File) : Prop where
  named : r.ending.binaryPath ≠ ""
  opened : files r.ending.binaryPath = some file
  checked : (file.header uninit).Has (identBytes ++ machineBytes)

/-- What the program does when it ends with `code`. It shows the texts of the
parser that the ending calls for, and of the loader the message for the first
check that the file fails. -/
structure MainOutcome (files : FileSystem) (uninit : Header) (program : String) (r : Reading)
    (code : Nat) (shown : List Shown) : Prop where
  success : code = 0 ↔ ∃ file, Runs files uninit r file
  failure : code ≠ 0 → code = 1 ∧
    ((∃ text, Shown.parser text ∈ shown) ∨ ∃ message, Shown.loader message ∈ shown)
  parser : ∀ text, Shown.parser text ∈ shown ↔ text ∈ r.ending.printed program
  loader : ∀ message, Shown.loader message ∈ shown ↔ r.ending.binaryPath ≠ "" ∧
    ∃ error, Rejects files uninit r.ending.binaryPath error ∧
      message = error.message r.ending.binaryPath
  running : ∀ path entryPoint, Shown.running path entryPoint ∈ shown ↔
    ∃ file, Runs files uninit r file ∧ path = r.ending.binaryPath ∧
      entryPoint = ((file.header uninit).info file.foundSize).entryPoint

/-- What is shown on request only. -/
def Shown.detail : Shown → Bool
  | options .. | elf .. | registers _ => true
  | parser _ | loader _ | running .. => false

namespace MainLemmas

/-- A command line that is not accepted is answered. -/
theorem printed_ne_nil {ending : Ending} (h : ending.binaryPath = "") (program : String) :
    ending.printed program ≠ [] := by
  cases ending with
  | exhausted | dangling _ => nofun
  | info name rest =>
    unfold Ending.printed
    dsimp only
    split <;> nofun
  | binary bin suffix =>
    obtain rfl : bin = "" := h
    exact List.cons_ne_nil _ _

theorem printed_eq_nil {ending : Ending} (h : ending.binaryPath ≠ "") (program : String) :
    ending.printed program = [] := by
  cases ending with
  | exhausted | dangling _ | info _ _ => exact absurd rfl h
  | binary bin suffix => exact if_neg h

theorem runs_iff {files : FileSystem} {uninit : Header} {r : Reading}
    (hnamed : r.ending.binaryPath ≠ "") :
    (∃ file, Runs files uninit r file) ↔
      (loadElf files uninit r.ending.binaryPath).1.valid = true := by
  constructor
  · rintro ⟨file, -, hopened, hchecked⟩
    exact (valid_iff hopened uninit).mpr hchecked
  · intro hv
    cases hopened : files r.ending.binaryPath with
    | none =>
      unfold loadElf at hv
      rw [hopened] at hv
      cases hv
    | some file => exact ⟨file, hnamed, hopened, (valid_iff hopened uninit).mp hv⟩

/-- A file that is not valid is reported. -/
theorem exists_error {files : FileSystem} {uninit : Header} {path : String}
    (h : (loadElf files uninit path).1.valid = false) :
    ∃ error, (loadElf files uninit path).2 = some error := by
  rw [← Option.ne_none_iff_exists', ne_eq, loadElf_error_iff, h]
  exact Bool.false_ne_true

theorem detail_options (config : Config) : ∀ s ∈ showOptions config, s.detail = true := by
  unfold showOptions
  split <;> simp [Shown.detail]

theorem detail_elf (config : Config) (elf : ELFInfo) :
    ∀ s ∈ showELF config elf, s.detail = true := by
  unfold showELF
  split <;> simp [Shown.detail]

theorem detail_registers (config : Config) (sysreg : SystemRegisterEmulator) :
    ∀ s ∈ showRegisters config sysreg, s.detail = true := by
  unfold showRegisters
  split <;> simp [Shown.detail]

/-- The details leave the other things that are shown alone. -/
theorem mem_append_details {xs ys : List Shown} (h : ∀ s ∈ ys, s.detail = true) {s : Shown}
    (hs : s.detail = false) : s ∈ xs ++ ys ↔ s ∈ xs := by
  refine ⟨fun hmem => (List.mem_append.mp hmem).resolve_right fun hy => ?_,
    List.mem_append_left ys⟩
  cases (h s hy).symm.trans hs

theorem mem_details_append {xs ys : List Shown} (h : ∀ s ∈ xs, s.detail = true) {s : Shown}
    (hs : s.detail = false) : s ∈ xs ++ ys ↔ s ∈ ys := by
  refine ⟨fun hmem => (List.mem_append.mp hmem).resolve_left fun hx => ?_,
    List.mem_append_right xs⟩
  cases (h s hx).symm.trans hs

variable {files : FileSystem} {uninit : Header} {program : String} {r : Reading} {config : Config}

/-- Without a binary the program ends with what the parser has to say. -/
theorem outcome_of_unnamed (hnone : r.ending.binaryPath = "") :
    MainOutcome files uninit program r 1 ((r.ending.printed program).map .parser) where
  success := ⟨nofun, fun ⟨_, h⟩ => absurd hnone h.named⟩
  failure := by
    obtain ⟨text, hmem⟩ := List.exists_mem_of_ne_nil _ (printed_ne_nil hnone program)
    exact fun _ => ⟨rfl, .inl ⟨text, List.mem_map_of_mem hmem⟩⟩
  parser := fun text => List.mem_map_of_injective fun _ _ => Shown.parser.inj
  loader := by
    refine fun message => ⟨fun hmem => ?_, fun h => absurd hnone h.1⟩
    obtain ⟨text, -, htext⟩ := List.mem_map.mp hmem
    cases htext
  running := by
    refine fun path entryPoint => ⟨fun hmem => ?_, fun ⟨_, h, _⟩ => absurd hnone h.named⟩
    obtain ⟨text, -, htext⟩ := List.mem_map.mp hmem
    cases htext

/-- A file that is not loaded leaves one message behind. -/
theorem outcome_of_invalid (hnamed : r.ending.binaryPath ≠ "")
    (hv : (loadElf files uninit r.ending.binaryPath).1.valid = false) {error : LoadError}
    (herror : (loadElf files uninit r.ending.binaryPath).2 = some error) :
    MainOutcome files uninit program r 1
      (showOptions config ++ [.loader (error.message r.ending.binaryPath)]) := by
  have hruns : ¬ ∃ file, Runs files uninit r file := by
    rw [runs_iff hnamed, hv]
    exact Bool.false_ne_true
  have hmem {s : Shown} (hs : s.detail = false) :
      s ∈ showOptions config ++ [.loader (error.message r.ending.binaryPath)] ↔
        s = .loader (error.message r.ending.binaryPath) :=
    (mem_details_append (detail_options config) hs).trans List.mem_singleton
  refine ⟨⟨nofun, fun h => absurd h hruns⟩, fun _ => ⟨rfl, .inr ⟨_, (hmem rfl).mpr rfl⟩⟩,
    fun text => ?_, fun message => ?_, fun path entryPoint => ?_⟩
  · rw [hmem rfl, printed_eq_nil hnamed]
    exact ⟨nofun, nofun⟩
  · rw [hmem rfl, Shown.loader.injEq, and_iff_right hnamed]
    constructor
    · rintro rfl
      exact ⟨error, loadElf_error.mp herror, rfl⟩
    · rintro ⟨error', hrejects, rfl⟩
      rw [Option.some.inj (herror.symm.trans (loadElf_error.mpr hrejects))]
  · rw [hmem rfl]
    exact ⟨nofun, fun ⟨file, h, _⟩ => absurd ⟨file, h⟩ hruns⟩

/-- Nothing is wrong, and the binary is announced. -/
theorem outcome_of_valid (hnamed : r.ending.binaryPath ≠ "")
    (hv : (loadElf files uninit r.ending.binaryPath).1.valid = true) {elf : ELFInfo}
    (helf : elf = (loadElf files uninit r.ending.binaryPath).1) :
    MainOutcome files uninit program r 0
      (showOptions config ++ showELF config elf ++ [.running r.ending.binaryPath elf.entryPoint] ++
        showRegisters config .new) := by
  obtain ⟨file, hruns⟩ := (runs_iff hnamed).mpr hv
  have hmem {s : Shown} (hs : s.detail = false) :
      s ∈ showOptions config ++ showELF config elf ++
          [.running r.ending.binaryPath elf.entryPoint] ++ showRegisters config .new ↔
        s = .running r.ending.binaryPath elf.entryPoint := by
    rw [mem_append_details (detail_registers config .new) hs, List.append_assoc,
      mem_details_append (detail_options config) hs, mem_details_append (detail_elf config elf) hs,
      List.mem_singleton]
  refine ⟨⟨fun _ => ⟨file, hruns⟩, fun _ => rfl⟩, fun h => absurd rfl h, fun text => ?_,
    fun message => ?_, fun path entryPoint => ?_⟩
  · rw [hmem rfl, printed_eq_nil hnamed]
    exact ⟨nofun, nofun⟩
  · rw [hmem rfl]
    refine ⟨nofun, fun ⟨_, error, hrejects, _⟩ => ?_⟩
    cases ((loadElf_error_iff files uninit r.ending.binaryPath).mpr hv).symm.trans
      (loadElf_error.mpr hrejects)
  · rw [hmem rfl, Shown.running.injEq]
    constructor
    · rintro ⟨hpath, hentry⟩
      refine ⟨file, hruns, hpath, ?_⟩
      rw [hentry, helf, info_of_valid hruns.opened hv]
    · rintro ⟨file', hruns', hpath, hentry⟩
      refine ⟨hpath, ?_⟩
      rw [hentry, helf, info_of_valid hruns'.opened hv]

end MainLemmas

open MainLemmas

theorem main_outcome (U : Undefined) (files : FileSystem) (uninit : Header) (program : String)
    (r : Reading) :
    match main U files uninit (program :: r.tokens) with
    | .threw e => r.items.findSome? (Item.error U) = some e
    | .exited code shown =>
      r.items.findSome? (Item.error U) = none ∧
        MainOutcome files uninit program r code shown := by
  unfold main
  cases hresult : parseArgs U (program :: r.tokens) with
  | threw e => exact error_of_threw hresult
  | returned ok config printed =>
    obtain ⟨hnone, hmeaning⟩ := meaning_of_returned hresult
    obtain rfl := hmeaning.printed
    cases ok with
    | false =>
      refine ⟨hnone, outcome_of_unnamed ?_⟩
      by_contra hnamed
      cases hmeaning.accepted.mpr hnamed
    | true =>
      have hnamed := hmeaning.accepted.mp rfl
      unfold afterParsing
      dsimp only
      rw [printed_eq_nil hnamed, hmeaning.binaryPath]
      cases hvalid : (loadElf files uninit r.ending.binaryPath).1.valid with
      | false =>
        obtain ⟨error, herror⟩ := exists_error hvalid
        rw [herror]
        exact ⟨hnone, outcome_of_invalid hnamed hvalid herror⟩
      | true =>
        rw [(loadElf_error_iff files uninit r.ending.binaryPath).mpr hvalid]
        simp only [List.map_nil, List.nil_append, Option.toList_none, List.append_nil,
          Bool.not_true, Bool.false_eq_true, if_false]
        exact ⟨hnone, outcome_of_valid hnamed hvalid rfl⟩

/-! ## 3. What makes no difference -/

namespace MainLemmas

end MainLemmas

end Acheron
