import MsysGit.Library.CString

/-!
# Mapped images

`MapAndLoad` maps the file of an image as it is, not as a loader would, so an RVA has to be
turned into an address by way of the section that it is in.  `GetAddressFromRVA` finds the
section by its size in memory, but the data of a section may be shorter, and it may be
outside of the file: `addressSafe_iff` says when the address that it returns can be used.

The program is a 32 bit one, so an address is a `UInt32`.  All of its memory can be read
here; a read that finds no memory ends the process, which is not modelled.
-/

namespace MsysGit.Depends

open MsysGit.Library

/-- `IMAGE_SECTION_HEADER` -/
structure Section where
  virtualAddress : UInt32
  virtualSize : UInt32
  sizeOfRawData : UInt32
  pointerToRawData : UInt32
  deriving DecidableEq

/-- `IMAGE_DATA_DIRECTORY` -/
structure DataDirectory where
  virtualAddress : UInt32
  size : UInt32
  deriving DecidableEq

/-- `LOADED_IMAGE`, with what its file and the memory hold. -/
structure LoadedImage where
  mappedAddress : UInt32
  fileSize : ℕ
  sections : List Section
  importDirectory : DataDirectory
  exportDirectory : DataDirectory
  memory : UInt32 → UInt8
  /-- The file is mapped below the end of the address space. -/
  fits : mappedAddress.toNat + fileSize ≤ 2 ^ 32

/-! ### The code -/

/-- `GetSection` -/
def getSection (image : LoadedImage) (rva : UInt32) : Option Section :=
  image.sections.find? fun s =>
    rva ≥ s.virtualAddress && rva < s.virtualAddress + s.virtualSize

/-- `GetAddressFromRVA`; zero is a null pointer. -/
def getAddressFromRVA (image : LoadedImage) (rva : UInt32) : UInt32 :=
  match getSection image rva with
  | none => 0
  | some s =>
      let delta := s.virtualAddress - s.pointerToRawData
      image.mappedAddress + rva - delta

/-! ### Reading the memory -/

namespace LoadedImage

/-- The `WORD` at an address. -/
def word (image : LoadedImage) (p : UInt32) : UInt16 :=
  (image.memory p).toUInt16 ||| (image.memory (p + 1)).toUInt16 <<< 8

/-- The `DWORD` at an address. -/
def dword (image : LoadedImage) (p : UInt32) : UInt32 :=
  (image.word p).toUInt32 ||| (image.word (p + 2)).toUInt32 <<< 16

theorem dword_of_zero {image : LoadedImage} {p : UInt32}
    (zero : ∀ k ∈ [(0 : UInt32), 1, 2, 3], image.memory (p + k) = 0) : image.dword p = 0 := by
  have word_zero (k : UInt32) (low : image.memory (p + k) = 0)
      (high : image.memory (p + (k + 1)) = 0) : image.word (p + k) = 0 := by
    rw [word, UInt32.add_assoc, low, high]
    rfl
  have low := word_zero 0 (zero 0 (by simp)) (zero 1 (by simp))
  have high := word_zero 2 (zero 2 (by simp)) (zero 3 (by simp))
  rw [UInt32.add_zero] at low
  rw [dword, low, high]
  rfl

/-- At most `n` bytes of the string at an address. -/
def stringTo (image : LoadedImage) : ℕ → UInt32 → Bytes
  | 0, _ => []
  | n + 1, p =>
      if image.memory p = 0 then [] else image.memory p :: image.stringTo n (p + 1)

/-- The string at an address. -/
def string (image : LoadedImage) (p : UInt32) : Bytes := image.stringTo (2 ^ 32) p

/-- The bytes of a `DWORD`. -/
def dwordBytes (n : UInt32) : Bytes :=
  [n.toUInt8, (n >>> 8).toUInt8, (n >>> 16).toUInt8, (n >>> 24).toUInt8]

/-- A file of 0x200 bytes, mapped at 0x400000, with all of it in one section from 0x1000 on. -/
def ofBytes (importDirectory exportDirectory : DataDirectory) (file : Bytes) : LoadedImage where
  mappedAddress := 0x400000
  fileSize := 0x200
  sections := [⟨0x1000, 0x200, 0x200, 0⟩]
  importDirectory := importDirectory
  exportDirectory := exportDirectory
  memory := fun p => file.getD (p - 0x400000).toNat 0
  fits := by decide

end LoadedImage

/-! ### When an address can be used -/

section Address

variable {image : LoadedImage} {rva : UInt32} {s : Section}

/-- The address is that of the RVA's place in the section's data. -/
theorem getAddressFromRVA_eq (found : getSection image rva = some s) :
    getAddressFromRVA image rva =
      image.mappedAddress + (s.pointerToRawData + (rva - s.virtualAddress)) := by
  rw [getAddressFromRVA, found]
  grind

/-- The file has the byte at this address. -/
def LoadedImage.Contains (image : LoadedImage) (p : UInt32) : Prop :=
  image.mappedAddress.toNat ≤ p.toNat ∧ p.toNat < image.mappedAddress.toNat + image.fileSize

/-- The address of an offset is in the file if the offset is. -/
theorem contains_add_iff (offset : UInt32) :
    image.Contains (image.mappedAddress + offset) ↔ offset.toNat < image.fileSize := by
  have fits := image.fits
  have below := offset.toNat_lt
  have base := image.mappedAddress.toNat_lt
  rw [LoadedImage.Contains, UInt32.toNat_add]
  omega

/-- The RVA is in the data of the section, at an offset `d`, and `p` is the address of that
place in the file. -/
def InData (image : LoadedImage) (rva p : UInt32) (s : Section) : Prop :=
  ∃ d, rva.toNat = s.virtualAddress.toNat + d ∧ d < s.sizeOfRawData.toNat ∧
    p = image.mappedAddress + s.pointerToRawData + .ofNat d

/-- An address that is not null is that of the RVA's place in the data of a section, and in
the file. -/
def AddressSafe (image : LoadedImage) (rva : UInt32) : Prop :=
  getAddressFromRVA image rva ≠ 0 →
    (∃ s ∈ image.sections, InData image rva (getAddressFromRVA image rva) s) ∧
      image.Contains (getAddressFromRVA image rva)

/-- A section that gives the RVA the same address as `s` does, and has data there. -/
def SharesData (rva : UInt32) (s s' : Section) : Prop :=
  s'.virtualAddress ≤ rva ∧ rva - s'.virtualAddress < s'.sizeOfRawData ∧
    s'.pointerToRawData - s'.virtualAddress = s.pointerToRawData - s.virtualAddress

instance (rva : UInt32) (s s' : Section) : Decidable (SharesData rva s s') :=
  inferInstanceAs (Decidable (_ ∧ _ ∧ _))

theorem inData_iff (found : getSection image rva = some s) (s' : Section) :
    InData image rva (getAddressFromRVA image rva) s' ↔ SharesData rva s s' := by
  rw [getAddressFromRVA_eq found, InData, SharesData]
  constructor
  · rintro ⟨d, at_d, inside, same⟩
    have le : s'.virtualAddress ≤ rva := UInt32.le_iff_toNat_le.mpr (by omega)
    have offset : rva - s'.virtualAddress = .ofNat d := by
      apply UInt32.toNat_inj.mp
      rw [UInt32.toNat_sub_of_le _ _ le, UInt32.toNat_ofNat']
      have := rva.toNat_lt
      omega
    refine ⟨le, ?_, ?_⟩
    · rw [UInt32.lt_iff_toNat_lt, UInt32.toNat_sub_of_le _ _ le]
      omega
    · grind
  · rintro ⟨le, inside, same⟩
    have below := UInt32.le_iff_toNat_le.mp le
    rw [UInt32.lt_iff_toNat_lt, UInt32.toNat_sub_of_le _ _ le] at inside
    refine ⟨rva.toNat - s'.virtualAddress.toNat, by omega, inside, ?_⟩
    rw [← UInt32.toNat_sub_of_le _ _ le, UInt32.ofNat_toNat]
    grind

/-- **When the address can be used**: no section is found, or the address comes out as zero,
or the RVA's place in the section's data is in the file, and the data of this section, or of
another one at the same distance, reaches so far. -/
theorem addressSafe_iff (image : LoadedImage) (rva : UInt32) :
    AddressSafe image rva ↔ ∀ s, getSection image rva = some s →
      image.mappedAddress + (s.pointerToRawData + (rva - s.virtualAddress)) = 0 ∨
      (s.pointerToRawData + (rva - s.virtualAddress)).toNat < image.fileSize ∧
        ∃ s' ∈ image.sections, SharesData rva s s' := by
  cases found : getSection image rva with
  | none =>
      have null : getAddressFromRVA image rva = 0 := by rw [getAddressFromRVA, found]
      exact ⟨fun _ => nofun, fun _ some_address => absurd null some_address⟩
  | some s =>
      simp only [Option.some.injEq, forall_eq']
      simp only [AddressSafe, inData_iff found]
      rw [getAddressFromRVA_eq found, contains_add_iff, and_comm, ← or_iff_not_imp_left]

end Address

/-- A section whose data is shorter than the section. -/
theorem not_addressSafe_short :
    ¬AddressSafe ⟨0x400000, 0x600, [⟨0x1000, 0x1000, 0x200, 0x400⟩], ⟨0, 0⟩, ⟨0, 0⟩, fun _ => 0,
      by decide⟩ 0x1800 := by
  intro safe
  have inside := (safe (by decide)).2.2
  revert inside
  decide

end MsysGit.Depends
