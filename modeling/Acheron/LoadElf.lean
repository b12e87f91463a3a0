import Acheron.Lib.InputStream

/-!
# Loading an ELF header

`load_elf` of `acheron.cpp`. It reads the first 64 bytes of a file into a buffer
and checks the buffer, not the length. A shorter file leaves the rest of the
buffer as it was, and the stream in a state in which its size is not found.

Results:
1. `loadElf_info`: what is returned for a file, by the checked bytes.
2. `loadElf_error`: which error is reported, the first thing that is wrong, and
   `loadElf_error_iff`: when there is one.
3. `loadsExactly_iff`: for which files the headers of 64-bit little-endian ARM64
   files are accepted, and no others.
-/

namespace Acheron

/-! ## 1. The loader -/

/-- A file that can be opened. Its length is a stream offset. -/
structure File where
  bytes : List (BitVec 8)
  size_lt : bytes.length < 2 ^ 63

/-- The files that can be opened, by path. -/
abbrev FileSystem := String → Option File

/-- `ELFInfo`. -/
structure ELFInfo where
  valid : Bool := false
  isArm64 : Bool := false
  entryPoint : BitVec 64 := 0
  baseAddress : BitVec 64 := 0
  fileSize : BitVec 64 := 0
deriving DecidableEq, Repr

inductive LoadError
  | cannotOpen
  | notELF
  | not64Bit
  | notLittleEndian
  | notARM64 (machine : BitVec 16)
deriving DecidableEq, Repr

/-- What `load_elf` prints. -/
def LoadError.message (path : String) : LoadError → String
  | cannotOpen => "Error: Cannot open binary: " ++ path ++ "\n"
  | notELF => "Error: Not an ELF binary: " ++ path ++ "\n"
  | not64Bit => "Error: Not a 64-bit binary: " ++ path ++ "\n"
  | notLittleEndian => "Error: Not a little-endian binary: " ++ path ++ "\n"
  | notARM64 machine =>
    "Error: Not an ARM64 binary (machine: 0x" ++
      String.ofList (Nat.toDigits 16 machine.toNat) ++ "): " ++ path ++ "\n"

/-- The content of the buffer `header`. -/
abbrev Header := Fin 64 → BitVec 8

/-- The buffer after a read of `chunk`. The rest is what it was before. -/
def fillHeader (chunk : List (BitVec 8)) (uninit : Header) : Header :=
  fun i => chunk[i.val]?.getD (uninit i)

/-- The checks of `load_elf`, on the buffer and the stream that it was read from. -/
def checkHeader (header : Header) (stream : InputStream (BitVec 8)) : ELFInfo × Option LoadError :=
  if header 0 ≠ 0x7F ∨ header 1 ≠ 0x45 ∨ header 2 ≠ 0x4C ∨ header 3 ≠ 0x46 then ({}, some .notELF)
  else if header 4 ≠ 2 then ({}, some .not64Bit)
  else if header 5 ≠ 1 then ({}, some .notLittleEndian)
  else
    let info : ELFInfo := { fileSize := BitVec.ofInt 64 (stream.seekEnd 0).tell.1 }
    let machine : BitVec 16 := littleEndian 16 [header 18, header 19]
    if machine = 0xB7 then
      ({ info with
          isArm64 := true
          entryPoint := littleEndian 64 [header 24, header 25, header 26, header 27, header 28,
            header 29, header 30, header 31]
          valid := true }, none)
    else (info, some (.notARM64 machine))

/-- `load_elf`, with the initial content of its buffer. -/
def loadElf (files : FileSystem) (uninit : Header) (path : String) :
    ELFInfo × Option LoadError :=
  match files path with
  | none => ({}, some .cannotOpen)
  | some file =>
    let (chunk, stream) := ({ content := file.bytes } : InputStream (BitVec 8)).read 64
    checkHeader (fillHeader chunk uninit) stream

/-! ## 2. The checked bytes -/

/-- The magic number. -/
def magicBytes : List (Fin 64 × BitVec 8) := [(0, 0x7F), (1, 0x45), (2, 0x4C), (3, 0x46)]

/-- The magic number, the class and the data encoding. -/
def identBytes : List (Fin 64 × BitVec 8) :=
  [(0, 0x7F), (1, 0x45), (2, 0x4C), (3, 0x46), (4, 2), (5, 1)]

/-- The machine type. -/
def machineBytes : List (Fin 64 × BitVec 8) := [(18, 0xB7), (19, 0)]

/-- The buffer has the given bytes. -/
def Header.Has (header : Header) (bytes : List (Fin 64 × BitVec 8)) : Prop :=
  ∀ c ∈ bytes, header c.1 = c.2

instance (header : Header) (bytes : List (Fin 64 × BitVec 8)) : Decidable (header.Has bytes) :=
  List.decidableBAll _ bytes

/-- The information that a header holds, with the size of its file. -/
def Header.info (header : Header) (size : BitVec 64) : ELFInfo :=
  { valid := true
    isArm64 := true
    entryPoint := littleEndian 64 [header 24, header 25, header 26, header 27, header 28,
      header 29, header 30, header 31]
    fileSize := size }

/-- The buffer when `file` has been read. -/
def File.header (file : File) (uninit : Header) : Header := fillHeader (file.bytes.take 64) uninit

/-- The size as `load_elf` finds it. -/
def File.foundSize (file : File) : BitVec 64 :=
  BitVec.ofInt 64 (if file.bytes.length < 64 then -1 else file.bytes.length)

namespace LoadLemmas

theorem machine_eq_iff (a b : BitVec 8) :
    littleEndian 16 [a, b] = 0xB7 ↔ a = 0xB7 ∧ b = 0 := by
  have ha := a.isLt
  have hb := b.isLt
  rw [← BitVec.toNat_inj, littleEndian_toNat (Nat.le_refl 16), ← BitVec.toNat_inj,
    ← BitVec.toNat_inj]
  show a.toNat + 256 * (b.toNat + 256 * 0) = 183 ↔ a.toNat = 183 ∧ b.toNat = 0
  omega

theorem has_magicBytes_iff (header : Header) :
    header.Has magicBytes ↔
      ¬ (header 0 ≠ 0x7F ∨ header 1 ≠ 0x45 ∨ header 2 ≠ 0x4C ∨ header 3 ≠ 0x46) := by
  unfold Header.Has magicBytes
  simp only [List.forall_mem_cons, List.not_mem_nil, false_implies, implies_true, and_true,
    not_or, not_not]

theorem has_identBytes_iff (header : Header) :
    header.Has identBytes ↔
      ¬ (header 0 ≠ 0x7F ∨ header 1 ≠ 0x45 ∨ header 2 ≠ 0x4C ∨ header 3 ≠ 0x46) ∧
        ¬ header 4 ≠ 2 ∧ ¬ header 5 ≠ 1 := by
  unfold Header.Has identBytes
  simp only [List.forall_mem_cons, List.not_mem_nil, false_implies, implies_true, and_true,
    not_or, not_not, and_assoc]

theorem has_machineBytes_iff (header : Header) :
    header.Has machineBytes ↔ littleEndian 16 [header 18, header 19] = 0xB7 := by
  rw [machine_eq_iff]
  unfold Header.Has machineBytes
  simp only [List.forall_mem_cons, List.not_mem_nil, false_implies, implies_true, and_true]

theorem checkHeader_info (header : Header) (stream : InputStream (BitVec 8)) :
    (checkHeader header stream).1 =
      let size := BitVec.ofInt 64 (stream.seekEnd 0).tell.1
      if header.Has identBytes then
        if header.Has machineBytes then header.info size else { fileSize := size }
      else {} := by
  unfold checkHeader
  dsimp only
  split
  · next hmagic => rw [if_neg fun h => ((has_identBytes_iff header).mp h).1 hmagic]
  · next hmagic =>
    split
    · next hclass => rw [if_neg fun h => ((has_identBytes_iff header).mp h).2.1 hclass]
    · next hclass =>
      split
      · next hdata => rw [if_neg fun h => ((has_identBytes_iff header).mp h).2.2 hdata]
      · next hdata =>
        rw [if_pos ((has_identBytes_iff header).mpr ⟨hmagic, hclass, hdata⟩)]
        split
        · next hmachine => rw [if_pos ((has_machineBytes_iff header).mpr hmachine)]; rfl
        · next hmachine => rw [if_neg fun h => hmachine ((has_machineBytes_iff header).mp h)]

end LoadLemmas

open LoadLemmas

theorem loadElf_info {files : FileSystem} {path : String} {file : File}
    (h : files path = some file) (uninit : Header) :
    (loadElf files uninit path).1 =
      if (file.header uninit).Has identBytes then
        if (file.header uninit).Has machineBytes then (file.header uninit).info file.foundSize
        else { fileSize := file.foundSize }
      else {} := by
  unfold loadElf
  rw [h]
  dsimp only
  rw [InputStream.read_start, checkHeader_info, InputStream.tell_seekEnd]
  simp only [decide_eq_true_eq]
  rfl

/-- What is wrong with the file at `path`: the first of the checks that it fails. -/
inductive Rejects (files : FileSystem) (uninit : Header) (path : String) : LoadError → Prop
  | cannotOpen : files path = none → Rejects files uninit path .cannotOpen
  | notELF {file : File} : files path = some file →
      ¬ (file.header uninit).Has magicBytes → Rejects files uninit path .notELF
  | not64Bit {file : File} : files path = some file →
      (file.header uninit).Has magicBytes → file.header uninit 4 ≠ 2 →
      Rejects files uninit path .not64Bit
  | notLittleEndian {file : File} : files path = some file →
      (file.header uninit).Has magicBytes → file.header uninit 4 = 2 →
      file.header uninit 5 ≠ 1 → Rejects files uninit path .notLittleEndian
  | notARM64 {file : File} {machine : BitVec 16} : files path = some file →
      (file.header uninit).Has identBytes →
      machine = littleEndian 16 [file.header uninit 18, file.header uninit 19] →
      machine ≠ 0xB7 → Rejects files uninit path (.notARM64 machine)

namespace LoadLemmas

theorem loadElf_opened {files : FileSystem} {path : String} {file : File}
    (h : files path = some file) (uninit : Header) :
    ∃ stream, loadElf files uninit path = checkHeader (file.header uninit) stream := by
  unfold loadElf
  rw [h]
  dsimp only
  rw [InputStream.read_start]
  exact ⟨_, rfl⟩

end LoadLemmas

/-- The error that is reported is the first thing that is wrong. -/
theorem loadElf_error {files : FileSystem} {uninit : Header} {path : String} {error : LoadError} :
    (loadElf files uninit path).2 = some error ↔ Rejects files uninit path error := by
  constructor
  · intro h
    cases hopened : files path with
    | none =>
      unfold loadElf at h
      rw [hopened] at h
      cases h
      exact .cannotOpen hopened
    | some file =>
      obtain ⟨stream, heq⟩ := loadElf_opened hopened uninit
      rw [heq] at h
      unfold checkHeader at h
      split at h
      · next hmagic =>
        cases h
        exact .notELF hopened fun hhas => (has_magicBytes_iff _).mp hhas hmagic
      · next hmagic =>
        have hhas := (has_magicBytes_iff _).mpr hmagic
        split at h
        · next hclass =>
          cases h
          exact .not64Bit hopened hhas hclass
        · next hclass =>
          split at h
          · next hdata =>
            cases h
            exact .notLittleEndian hopened hhas (not_not.mp hclass) hdata
          · next hdata =>
            dsimp only at h
            split at h
            · cases h
            · next hmachine =>
              cases h
              exact .notARM64 hopened ((has_identBytes_iff _).mpr ⟨hmagic, hclass, hdata⟩) rfl
                hmachine
  · intro h
    cases h with
    | cannotOpen hclosed =>
      unfold loadElf
      rw [hclosed]
    | notELF hopened hhas =>
      obtain ⟨stream, heq⟩ := loadElf_opened hopened uninit
      have hmagic := not_not.mp (mt (has_magicBytes_iff _).mpr hhas)
      unfold checkHeader at heq
      rw [heq, if_pos hmagic]
    | not64Bit hopened hhas hclass =>
      obtain ⟨stream, heq⟩ := loadElf_opened hopened uninit
      have hmagic := (has_magicBytes_iff _).mp hhas
      unfold checkHeader at heq
      rw [heq, if_neg hmagic, if_pos hclass]
    | notLittleEndian hopened hhas hclass hdata =>
      obtain ⟨stream, heq⟩ := loadElf_opened hopened uninit
      have hmagic := (has_magicBytes_iff _).mp hhas
      unfold checkHeader at heq
      rw [heq, if_neg hmagic, if_neg (not_not.mpr hclass), if_pos hdata]
    | notARM64 hopened hhas hmachine hne =>
      obtain ⟨stream, heq⟩ := loadElf_opened hopened uninit
      obtain ⟨hmagic, hclass, hdata⟩ := (has_identBytes_iff _).mp hhas
      unfold checkHeader at heq
      rw [heq, if_neg hmagic, if_neg hclass, if_neg hdata]
      dsimp only
      rw [← hmachine, if_neg hne]

/-- An error is reported exactly for what is not valid. -/
theorem loadElf_error_iff (files : FileSystem) (uninit : Header) (path : String) :
    (loadElf files uninit path).2 = none ↔ (loadElf files uninit path).1.valid = true := by
  unfold loadElf
  split
  · exact ⟨nofun, nofun⟩
  · dsimp only
    unfold checkHeader
    split
    · exact ⟨nofun, nofun⟩
    · split
      · exact ⟨nofun, nofun⟩
      · split
        · exact ⟨nofun, nofun⟩
        · dsimp only
          split
          · exact ⟨fun _ => rfl, fun _ => rfl⟩
          · exact ⟨nofun, nofun⟩

/-! ## 3. Which files are loaded right -/

/-- A 64-bit little-endian ELF header for ARM64. -/
structure IsElf64 (bytes : List (BitVec 8)) : Prop where
  length : 64 ≤ bytes.length
  checked : ∀ c ∈ identBytes ++ machineBytes, bytes[c.1.val]? = some c.2

/-- Whatever the buffer held before, `load_elf` accepts the file exactly when it
is such a file, reports its entry point and its length, and always returns the
same. -/
structure LoadsExactly (file : File) : Prop where
  accepts : ∀ files path uninit, files path = some file →
    ((loadElf files uninit path).1.valid = true ↔ IsElf64 file.bytes)
  entryPoint : ∀ files path uninit, files path = some file →
    (loadElf files uninit path).1.valid = true →
      (loadElf files uninit path).1.entryPoint.toNat =
        Nat.ofDigits 256 (((file.bytes.drop 24).take 8).map BitVec.toNat)
  fileSize : ∀ files path uninit, files path = some file →
    (loadElf files uninit path).1.valid = true →
      (loadElf files uninit path).1.fileSize.toNat = file.bytes.length
  determined : ∀ files files' path path' uninit uninit', files path = some file →
    files' path' = some file → (loadElf files uninit path).1 = (loadElf files' uninit' path').1

/-- The file fills the buffer, or has a wrong byte among those that are checked. -/
def Settled (file : File) : Prop :=
  64 ≤ file.bytes.length ∨
    ∃ c ∈ identBytes ++ machineBytes, ∃ b, file.bytes[c.1.val]? = some b ∧ b ≠ c.2

namespace LoadLemmas

theorem header_of_some {file : File} {i : Fin 64} {b : BitVec 8}
    (h : file.bytes[i.val]? = some b) (uninit : Header) : file.header uninit i = b := by
  unfold File.header fillHeader
  rw [List.getElem?_take_of_lt i.isLt, h, Option.getD_some]

theorem header_of_none {file : File} {i : Fin 64} (h : file.bytes[i.val]? = none)
    (uninit : Header) : file.header uninit i = uninit i := by
  unfold File.header fillHeader
  rw [List.getElem?_take_of_lt i.isLt, h, Option.getD_none]

theorem has_append {header : Header} {xs ys : List (Fin 64 × BitVec 8)} :
    header.Has (xs ++ ys) ↔ header.Has xs ∧ header.Has ys :=
  List.forall_mem_append

theorem valid_iff {files : FileSystem} {path : String} {file : File}
    (h : files path = some file) (uninit : Header) :
    (loadElf files uninit path).1.valid = true ↔
      (file.header uninit).Has (identBytes ++ machineBytes) := by
  rw [loadElf_info h, has_append]
  split
  · next hident =>
    split
    · next hmachine => exact ⟨fun _ => ⟨hident, hmachine⟩, fun _ => rfl⟩
    · next hmachine => exact ⟨nofun, fun hhas => absurd hhas.2 hmachine⟩
  · next hident => exact ⟨nofun, fun hhas => absurd hhas.1 hident⟩

theorem info_of_valid {files : FileSystem} {path : String} {file : File} {uninit : Header}
    (h : files path = some file) (hv : (loadElf files uninit path).1.valid = true) :
    (loadElf files uninit path).1 = (file.header uninit).info file.foundSize := by
  obtain ⟨hident, hmachine⟩ := has_append.mp ((valid_iff h uninit).mp hv)
  rw [loadElf_info h, if_pos hident, if_pos hmachine]

/-- A wrong byte in the file is found, whatever the rest of the buffer holds. -/
theorem not_has {file : File} {bytes : List (Fin 64 × BitVec 8)} {c : Fin 64 × BitVec 8}
    {b : BitVec 8} (hc : c ∈ bytes) (hb : file.bytes[c.1.val]? = some b) (hne : b ≠ c.2)
    (uninit : Header) : ¬ (file.header uninit).Has bytes := by
  intro hhas
  exact hne ((header_of_some hb uninit).symm.trans (hhas c hc))

/-- The initial content of the buffer that makes up for missing bytes. -/
def expected : Header := fun i => ((identBytes ++ machineBytes).lookup i).getD 0

theorem expected_all :
    (identBytes ++ machineBytes).all (fun c => decide (expected c.1 = c.2)) = true := by
  decide

theorem settled_of_loadsExactly {file : File} (h : LoadsExactly file) : Settled file := by
  by_contra hs
  obtain ⟨hshort, hright⟩ := not_or.mp hs
  have hhas : (file.header expected).Has (identBytes ++ machineBytes) := by
    intro c hc
    cases hb : file.bytes[c.1.val]? with
    | some b =>
      rw [header_of_some hb]
      by_contra hne
      exact hright ⟨c, hc, b, hb, hne⟩
    | none =>
      rw [header_of_none hb]
      exact of_decide_eq_true (List.all_eq_true.mp expected_all c hc)
  let files : FileSystem := fun _ => some file
  have hopen : files "" = some file := rfl
  exact hshort ((h.accepts _ _ expected hopen).mp ((valid_iff hopen expected).mpr hhas)).length

section Full

variable {file : File} (hfull : 64 ≤ file.bytes.length)
include hfull

theorem getElem?_of_full (uninit : Header) (i : Fin 64) :
    file.bytes[i.val]? = some (file.header uninit i) := by
  have hi : file.bytes[i.val]? = some file.bytes[i.val] := List.getElem?_eq_getElem (by omega)
  rw [header_of_some hi, hi]

theorem header_of_full (uninit uninit' : Header) : file.header uninit = file.header uninit' := by
  funext i
  exact header_of_some (getElem?_of_full hfull uninit' i) uninit

theorem entryBytes_of_full (uninit : Header) :
    (file.bytes.drop 24).take 8 =
      [file.header uninit 24, file.header uninit 25, file.header uninit 26,
        file.header uninit 27, file.header uninit 28, file.header uninit 29,
        file.header uninit 30, file.header uninit 31] := by
  have hbyte := getElem?_of_full hfull uninit
  refine List.ext_getElem? fun i => ?_
  rcases Nat.lt_or_ge i 8 with hi | hi
  · rw [List.getElem?_take_of_lt hi, List.getElem?_drop]
    match i, hi with
    | 0, _ => exact hbyte 24
    | 1, _ => exact hbyte 25
    | 2, _ => exact hbyte 26
    | 3, _ => exact hbyte 27
    | 4, _ => exact hbyte 28
    | 5, _ => exact hbyte 29
    | 6, _ => exact hbyte 30
    | 7, _ => exact hbyte 31
  · rw [List.getElem?_take_eq_none hi]
    exact (List.getElem?_eq_none hi).symm

theorem foundSize_of_full : file.foundSize.toNat = file.bytes.length := by
  have hlt := file.size_lt
  unfold File.foundSize
  rw [if_neg (by omega), BitVec.toNat_ofInt]
  omega

theorem loadsExactly_of_full : LoadsExactly file := by
  constructor
  · intro files path uninit h
    rw [valid_iff h]
    constructor
    · intro hhas
      refine ⟨hfull, fun c hc => ?_⟩
      rw [getElem?_of_full hfull uninit, hhas c hc]
    · rintro ⟨-, hchecked⟩ c hc
      exact header_of_some (hchecked c hc) uninit
  · intro files path uninit h hv
    rw [info_of_valid h hv, entryBytes_of_full hfull uninit]
    exact littleEndian_toNat (Nat.le_refl 64)
  · intro files path uninit h hv
    rw [info_of_valid h hv]
    exact foundSize_of_full hfull
  · intro files files' path path' uninit uninit' h h'
    rw [loadElf_info h, loadElf_info h', header_of_full hfull uninit uninit']

end Full

theorem before_machine {c c' : Fin 64 × BitVec 8} (hc : c ∈ machineBytes) (hc' : c' ∈ identBytes) :
    c'.1.val < c.1.val := by
  have hlow : identBytes.all (fun c => decide (c.1.val < 18)) = true := by decide
  have hhigh : machineBytes.all (fun c => decide (18 ≤ c.1.val)) = true := by decide
  have hc18 := of_decide_eq_true (List.all_eq_true.mp hhigh c hc)
  exact Nat.lt_of_lt_of_le (of_decide_eq_true (List.all_eq_true.mp hlow c' hc')) hc18

/-- A file whose wrong byte is there to be seen is rejected, with the same
information every time. -/
theorem loadsExactly_of_wrong {file : File} {c : Fin 64 × BitVec 8} {b : BitVec 8}
    (hshort : file.bytes.length < 64) (hc : c ∈ identBytes ++ machineBytes)
    (hb : file.bytes[c.1.val]? = some b) (hne : b ≠ c.2) : LoadsExactly file := by
  have hinvalid {files path uninit} (h : files path = some file) :
      (loadElf files uninit path).1.valid ≠ true := fun hv =>
    not_has hc hb hne uninit ((valid_iff h uninit).mp hv)
  constructor
  · intro files path uninit h
    exact ⟨fun hv => absurd hv (hinvalid h), fun helf => absurd helf.length (by omega)⟩
  · intro files path uninit h hv
    exact absurd hv (hinvalid h)
  · intro files path uninit h hv
    exact absurd hv (hinvalid h)
  · intro files files' path path' uninit uninit' h h'
    rw [loadElf_info h, loadElf_info h']
    rcases List.mem_append.mp hc with hident | hmachine
    · rw [if_neg (not_has hident hb hne uninit), if_neg (not_has hident hb hne uninit')]
    · rw [if_neg (not_has hmachine hb hne uninit), if_neg (not_has hmachine hb hne uninit')]
      -- The bytes before the machine type are all there.
      have hlength : c.1.val < file.bytes.length := by
        obtain ⟨hlt, -⟩ := List.getElem?_eq_some_iff.mp hb
        exact hlt
      refine if_congr (forall₂_congr fun c' hc' => ?_) rfl rfl
      have hlt := before_machine hmachine hc'
      have hb' : file.bytes[c'.1.val]? = some file.bytes[c'.1.val] :=
        List.getElem?_eq_getElem (by omega)
      rw [header_of_some hb' uninit, header_of_some hb' uninit']

end LoadLemmas

open LoadLemmas

/-- The length is not checked, so a shorter file is loaded right only if it
shows that it is not one. -/
theorem loadsExactly_iff (file : File) : LoadsExactly file ↔ Settled file := by
  constructor
  · exact settled_of_loadsExactly
  · intro hsettled
    rcases Nat.lt_or_ge file.bytes.length 64 with hshort | hfull
    · rcases hsettled with hfull | ⟨c, hc, b, hb, hne⟩
      · omega
      · exact loadsExactly_of_wrong hshort hc hb hne
    · exact loadsExactly_of_full hfull

/-- A file that ends after the machine type. -/
def truncatedFile : File where
  bytes := [0x7F, 0x45, 0x4C, 0x46, 2, 1] ++ List.replicate 12 0 ++ [0xB7, 0]
  size_lt := by decide

/-- It is accepted, since it has all the bytes that are checked. -/
theorem truncated_accepted : ¬ ∀ file, LoadsExactly file := by
  intro hall
  let files : FileSystem := fun _ => some truncatedFile
  have haccepts := (hall truncatedFile).accepts files "a.out" (fun _ => 0) rfl
  have hvalid : (loadElf files (fun _ => 0) "a.out").1.valid = true := rfl
  exact absurd (haccepts.mp hvalid).length (by decide)

end Acheron
