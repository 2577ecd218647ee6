import Pintos.Filesys.Directory
import Pintos.Filesys.InodeWrite
import Pintos.Filesys.SequentialRead

/-!
# Searching a directory

A directory is an array of entries of twenty bytes. `lookup` finds the first
entry in use under a name, and `dir_add` takes the first slot that is not in use.
This file describes both searches in terms of the entries on the device, says
when they return, and follows them through the write of one entry.
-/

namespace Pintos

open Pintos.Computation

variable {fs after : Fs} {addr fuel : ℕ} {ino : Inode} {disk : InodeDisk} {dev : Block}
  {name : List Byte} {res : Option (DirEntry × ℤ)}

def InodeDisk.entryAt (disk : InodeDisk) (device : Block) (ofs : ℕ) : DirEntry :=
  overlay (fun _ => 0) 0 dirEntrySize fun index => disk.contents device (ofs + index)

def DirEntry.Matches (entry : DirEntry) (name : List Byte) : Prop :=
  DirEntry.inUse entry ∧ DirEntry.hasName entry name

/-- The slot at `step` is the first one that is wanted. -/
structure InodeDisk.FirstEntry (disk : InodeDisk) (device : Block) (wanted : DirEntry → Prop)
    (step : ℕ) : Prop where
  fits : 20 * step + 20 ≤ disk.len
  found : wanted (disk.entryAt device (20 * step))
  first : ∀ earlier, earlier < step → ¬ wanted (disk.entryAt device (20 * earlier))

/-- No slot is wanted. -/
def InodeDisk.NoEntry (disk : InodeDisk) (device : Block) (wanted : DirEntry → Prop) : Prop :=
  ∀ step, 20 * step + 20 ≤ disk.len → ¬ wanted (disk.entryAt device (20 * step))

lemma InodeDisk.FirstEntry.unique {wanted : DirEntry → Prop} {left right : ℕ}
  (one : disk.FirstEntry dev wanted left) (two : disk.FirstEntry dev wanted right) :
  left = right := by
  rcases Nat.lt_trichotomy left right with pre | same | behind
  · exact absurd one.found (two.first left pre)
  · exact same
  · exact absurd two.found (one.first right behind)

section Reading

variable (heap : fs.HeapOk) (isOpen : fs.inodes addr = some ino)
  (readable : ino.data.Readable fs.device) {ofs start : ℕ}

include heap isOpen readable

lemma inodeReadAt_entryAt (inside : ofs + 20 ≤ ino.data.len) :
  inodeReadAt addr (fun _ => 0) dirEntrySize ofs fs =
    .ok ((dirEntrySize, ino.data.entryAt fs.device ofs), fs) :=
  inodeReadAt_inside heap isOpen readable inside _

lemma inodeReadAt_entry {entry : ℕ → Byte} {cnt : ℤ}
  (ran : inodeReadAt addr (fun _ => 0) dirEntrySize ofs fs = .ok ((cnt, entry), after)) :
  after = fs ∧
    ((cnt = dirEntrySize ∧ ofs + 20 ≤ ino.data.len ∧
        entry = ino.data.entryAt fs.device ofs) ∨
      (cnt ≠ dirEntrySize ∧ ino.data.len < ofs + 20)) := by
  refine ⟨inodeReadAt_untouched _ _ _ _ ran heap, ?_⟩
  by_cases inside : ofs + 20 ≤ ino.data.len
  · left
    rw [inodeReadAt_entryAt heap isOpen readable inside] at ran
    cases ran
    exact ⟨rfl, inside, rfl⟩
  right
  rcases (inodeReadAt_past_iff heap isOpen readable (show 0 < dirEntrySize by decide)
    (Nat.lt_of_not_le inside) _).mp ran with ⟨_, same⟩
  cases same
  exact ⟨by decide, Nat.lt_of_not_le inside⟩

lemma inodeReadAt_entry_returns (direct : ino.data.len < 123 * 512)
  (inside : ofs ≤ ino.data.len) :
  ∃ cnt entry, inodeReadAt addr (fun _ => 0) dirEntrySize ofs fs = .ok ((cnt, entry), fs) := by
  by_cases fits : ofs + 20 ≤ ino.data.len
  · exact ⟨_, _, inodeReadAt_entryAt heap isOpen readable fits⟩
  refine ⟨_, _, (inodeReadAt_past_iff heap isOpen readable (show 0 < dirEntrySize by decide)
    (Nat.lt_of_not_le fits) _).mpr ⟨Or.inl ?_, rfl⟩⟩
  omega

lemma lookupLoop_eq_ok
  (ran : lookupLoop addr name fuel ((20 * start : ℕ) : ℤ) fs = .ok (res, after)) : after = fs ∧
    ((∃ step, start ≤ step ∧ 20 * step + 20 ≤ ino.data.len ∧
        DirEntry.Matches (ino.data.entryAt fs.device (20 * step)) name ∧
        (∀ prior, start ≤ prior → prior < step →
          ¬ DirEntry.Matches (ino.data.entryAt fs.device (20 * prior)) name) ∧
        res = some (ino.data.entryAt fs.device (20 * step), ((20 * step : ℕ) : ℤ))) ∨
      (res = none ∧ ∀ step, start ≤ step → 20 * step + 20 ≤ ino.data.len →
        ¬ DirEntry.Matches (ino.data.entryAt fs.device (20 * step)) name)) := by
  induction fuel generalizing start with
  | zero => simp [lookupLoop] at ran
  | succ fuel ih =>
    rcases bind_eq_ok ran with ⟨⟨cnt, entry⟩, mid, read, rest⟩
    rcases inodeReadAt_entry heap isOpen readable read with ⟨rfl, cases⟩
    simp only at rest
    rcases cases with ⟨rfl, inside, rfl⟩ | ⟨nothing, past⟩
    · rw [if_pos rfl] at rest
      split at rest
      · next matching =>
          cases rest
          refine ⟨rfl, Or.inl ⟨start, le_rfl, inside, matching, ?_, rfl⟩⟩
          intro prior lower upper
          omega
      next ne =>
        have shifted : ((20 * start : ℕ) : ℤ) + (dirEntrySize : ℕ) =
            ((20 * (start + 1) : ℕ) : ℤ) := by
          simp only [dirEntrySize]
          omega
        rw [shifted] at rest
        have here : ∀ slot, start ≤ slot → ¬ start + 1 ≤ slot →
            ¬ DirEntry.Matches (ino.data.entryAt mid.device (20 * slot)) name := by
          intro slot lower upper
          have same : slot = start := by omega
          subst same
          exact ne
        rcases ih rest with ⟨rfl, found | ⟨rfl, missing⟩⟩
        · rcases found with ⟨step, lower, fits, matching, first, rfl⟩
          refine ⟨rfl, Or.inl ⟨step, by omega, fits, matching, ?_, rfl⟩⟩
          intro prior lowerPrior upper
          by_cases next : start + 1 ≤ prior
          · exact first prior next upper
          · exact here prior lowerPrior next
        refine ⟨rfl, Or.inr ⟨rfl, ?_⟩⟩
        intro step lower fits
        by_cases next : start + 1 ≤ step
        · exact missing step next fits
        · exact here step lower next
    rw [if_neg nothing] at rest
    cases rest
    refine ⟨rfl, Or.inr ⟨rfl, ?_⟩⟩
    intro step lower fits
    omega

lemma lookupLoop_returns (direct : ino.data.len < 123 * 512) (name : List Byte) {steps : ℕ}
  (inside : ofs ≤ ino.data.len) (ending : ino.data.len < ofs + 20 * steps) :
  ∃ res, ∀ fuel, steps ≤ fuel → lookupLoop addr name fuel ofs fs = .ok (res, fs) := by
  induction steps generalizing ofs with
  | zero => omega
  | succ steps ih =>
    rcases inodeReadAt_entry_returns heap isOpen readable direct inside with
      ⟨cnt, entry, read⟩
    rcases inodeReadAt_entry heap isOpen readable read with ⟨_, cases⟩
    have unfolded : ∀ fuel, steps + 1 ≤ fuel → lookupLoop addr name fuel ofs fs =
        (if cnt = dirEntrySize then
          if DirEntry.inUse entry ∧ DirEntry.hasName entry name then
            pure (some (entry, (ofs : ℤ)))
          else lookupLoop addr name (fuel - 1) ((ofs + 20 : ℕ) : ℤ)
        else pure none : Kernel (Option (DirEntry × ℤ))) fs := by
      intro fuel enough
      rcases (show ∃ less, fuel = less + 1 from ⟨fuel - 1, by omega⟩) with ⟨less, rfl⟩
      rw [lookupLoop, bind_of_ok read]
      rfl
    rcases cases with ⟨isEntry, fits, _⟩ | ⟨nothing, _⟩
    · by_cases matching : DirEntry.inUse entry ∧ DirEntry.hasName entry name
      · refine ⟨some (entry, ofs), fun fuel enough => ?_⟩
        rw [unfolded fuel enough, if_pos isEntry, if_pos matching]
        rfl
      rcases ih (show ofs + 20 ≤ ino.data.len by omega) (by omega) with ⟨res, run⟩
      refine ⟨res, fun fuel enough => ?_⟩
      rw [unfolded fuel enough, if_pos isEntry, if_neg matching]
      exact run (fuel - 1) (by omega)
    refine ⟨none, fun fuel enough => ?_⟩
    rw [unfolded fuel enough, if_neg nothing]
    rfl

lemma lookupLoop_finds {left : ℕ} (enough : left < fuel) (start : ℕ)
  (found : ino.data.FirstEntry fs.device (DirEntry.Matches · name) (start + left)) :
  lookupLoop addr name fuel ((20 * start : ℕ) : ℤ) fs =
    .ok (some (ino.data.entryAt fs.device (20 * (start + left)),
      ((20 * (start + left) : ℕ) : ℤ)), fs) := by
  have fits := found.fits
  induction left generalizing start fuel with
  | zero =>
    rcases (show ∃ less, fuel = less + 1 from ⟨fuel - 1, by omega⟩) with ⟨less, rfl⟩
    rw [lookupLoop, bind_of_ok (inodeReadAt_entryAt heap isOpen readable (by omega))]
    exact congrFun (if_pos found.found) fs
  | succ left ih =>
    rcases (show ∃ less, fuel = less + 1 from ⟨fuel - 1, by omega⟩) with ⟨less, rfl⟩
    have ne := found.first start (by omega)
    have shifted : start + (left + 1) = start + 1 + left := by omega
    rw [lookupLoop, bind_of_ok (inodeReadAt_entryAt heap isOpen readable (by omega))]
    refine (congrFun (if_neg ne) fs).trans ?_
    rw [shifted] at found ⊢
    exact ih (by omega) (start + 1) found (by omega)

lemma freeSlotLoop_eq_ok {res : DirEntry × ℤ}
  (ran : freeSlotLoop addr fuel ((20 * start : ℕ) : ℤ) fs = .ok (res, after)) :
  after = fs ∧ ∃ step, res.2 = ((20 * step : ℕ) : ℤ) ∧
    (20 * step + 20 ≤ ino.data.len →
      DirEntry.inUse (ino.data.entryAt fs.device (20 * step)) = false) ∧
    ∀ prior, start ≤ prior → prior < step →
      DirEntry.inUse (ino.data.entryAt fs.device (20 * prior)) = true := by
  induction fuel generalizing start with
  | zero => simp [freeSlotLoop] at ran
  | succ fuel ih =>
    rcases bind_eq_ok ran with ⟨⟨cnt, entry⟩, mid, read, rest⟩
    rcases inodeReadAt_entry heap isOpen readable read with ⟨rfl, cases⟩
    simp only at rest
    split at rest
    · next taken =>
        have shifted : ((20 * start : ℕ) : ℤ) + (dirEntrySize : ℕ) =
            ((20 * (start + 1) : ℕ) : ℤ) := by
          simp only [dirEntrySize]
          omega
        rw [shifted] at rest
        rcases ih rest with ⟨rfl, step, isOfs, unused, priorUsed⟩
        refine ⟨rfl, step, isOfs, unused, ?_⟩
        intro prior lower upper
        by_cases next : start + 1 ≤ prior
        · exact priorUsed prior next upper
        rcases cases with ⟨_, _, rfl⟩ | ⟨nothing, _⟩
        · rw [show prior = start by omega]
          exact taken.2
        · exact absurd taken.1 nothing
    next free =>
      cases rest
      refine ⟨rfl, start, rfl, ?_, ?_⟩
      · intro fits
        rcases cases with ⟨rfl, _, rfl⟩ | ⟨_, past⟩
        · simpa using free
        · omega
      intro prior lower upper
      omega

lemma freeSlotLoop_returns {steps : ℕ} (fits : 20 * (start + steps) + 20 ≤ ino.data.len)
  (free : DirEntry.inUse (ino.data.entryAt fs.device (20 * (start + steps))) = false) :
  ∃ entry step, step ≤ steps ∧ ∀ fuel, steps < fuel →
    freeSlotLoop addr fuel ((20 * start : ℕ) : ℤ) fs =
      .ok ((entry, ((20 * (start + step) : ℕ) : ℤ)), fs) := by
  induction steps generalizing start with
  | zero =>
    refine ⟨ino.data.entryAt fs.device (20 * start), 0, le_rfl, ?_⟩
    intro fuel enough
    rcases (show ∃ less, fuel = less + 1 from ⟨fuel - 1, by omega⟩) with ⟨less, rfl⟩
    rw [freeSlotLoop, bind_of_ok (inodeReadAt_entryAt heap isOpen readable (by omega))]
    simp only [Nat.add_zero] at free
    simp [free]
  | succ steps ih =>
    have read := inodeReadAt_entryAt heap isOpen readable
      (show 20 * start + 20 ≤ ino.data.len by omega)
    by_cases inUse : DirEntry.inUse (ino.data.entryAt fs.device (20 * start)) = true
    · rcases ih (show 20 * (start + 1 + steps) + 20 ≤ ino.data.len by omega)
        (by rwa [show start + 1 + steps = start + (steps + 1) by omega]) with
        ⟨entry, step, stepLe, run⟩
      refine ⟨entry, step + 1, by omega, ?_⟩
      intro fuel enough
      rcases (show ∃ less, fuel = less + 1 from ⟨fuel - 1, by omega⟩) with ⟨less, rfl⟩
      rw [freeSlotLoop, bind_of_ok read]
      simp only [inUse, and_self, if_true]
      have shifted : ((20 * start : ℕ) : ℤ) + (dirEntrySize : ℕ) =
          ((20 * (start + 1) : ℕ) : ℤ) := by
        simp only [dirEntrySize]
        omega
      rw [shifted, run less (by omega), show start + 1 + step = start + (step + 1) by omega]
    refine ⟨ino.data.entryAt fs.device (20 * start), 0, Nat.zero_le _, ?_⟩
    intro fuel enough
    rcases (show ∃ less, fuel = less + 1 from ⟨fuel - 1, by omega⟩) with ⟨less, rfl⟩
    rw [freeSlotLoop, bind_of_ok read]
    simp [inUse]

end Reading

section Looking

variable {dir : Dir} (heap : fs.HeapOk) (isOpen : fs.inodes dir.inode = some ino)
  (readable : ino.data.Readable fs.device)

include heap isOpen readable

lemma lookup_eq_ok (ran : lookup fuel dir name fs = .ok (res, after)) : after = fs ∧
    ((∃ step, ino.data.FirstEntry fs.device (DirEntry.Matches · name) step ∧
        res = some (ino.data.entryAt fs.device (20 * step), ((20 * step : ℕ) : ℤ))) ∨
      (res = none ∧ ino.data.NoEntry fs.device (DirEntry.Matches · name))) := by
  rcases lookupLoop_eq_ok heap isOpen readable
    (show lookupLoop dir.inode name fuel ((20 * 0 : ℕ) : ℤ) fs = _ from ran) with
    ⟨rfl, ⟨step, _, fits, matching, first, rfl⟩ | ⟨rfl, missing⟩⟩
  · exact ⟨rfl, Or.inl ⟨step, ⟨fits, matching, fun prior => first prior (Nat.zero_le _)⟩, rfl⟩⟩
  · exact ⟨rfl, Or.inr ⟨rfl, fun step => missing step (Nat.zero_le _)⟩⟩

lemma lookup_returns (direct : ino.data.len < 123 * 512) (name : List Byte) :
  ∃ res, ∀ fuel, ino.data.len < fuel → lookup fuel dir name fs = .ok (res, fs) := by
  rcases lookupLoop_returns heap isOpen readable direct name
    (Nat.zero_le _) (show ino.data.len < 0 + 20 * (ino.data.len + 1) by omega) with
    ⟨res, run⟩
  exact ⟨res, fun fuel enough => run fuel enough⟩

lemma lookup_of_firstEntry {step : ℕ}
  (found : ino.data.FirstEntry fs.device (DirEntry.Matches · name) step)
  (enough : ino.data.len < fuel) : lookup fuel dir name fs =
    .ok (some (ino.data.entryAt fs.device (20 * step), ((20 * step : ℕ) : ℤ)), fs) := by
  have fits := found.fits
  have finds := lookupLoop_finds heap isOpen readable (show step < fuel by omega) 0
    (by rw [Nat.zero_add]; exact found)
  rw [Nat.zero_add] at finds
  exact finds

lemma lookup_of_noEntry (direct : ino.data.len < 123 * 512)
  (missing : ino.data.NoEntry fs.device (DirEntry.Matches · name))
  (enough : ino.data.len < fuel) : lookup fuel dir name fs = .ok (none, fs) := by
  rcases lookup_returns heap isOpen readable direct name with ⟨res, run⟩
  have ran := run fuel enough
  rcases lookup_eq_ok heap isOpen readable ran with ⟨_, ⟨step, isFirst, _⟩ | ⟨rfl, _⟩⟩
  · exact absurd isFirst.found (missing step isFirst.fits)
  · exact ran

end Looking

section Names

variable {entry : DirEntry}

lemma DirEntry.hasName_iff : DirEntry.hasName entry name = true ↔
  (∀ idx (bound : idx < name.length), entry (4 + idx) = name[idx]) ∧
    entry (4 + name.length) = 0 := by
  rw [DirEntry.hasName, decide_eq_true_eq, List.range_succ, List.map_append, List.map_singleton]
  constructor
  · intro same
    rcases List.append_inj same (by simp) with ⟨names, ending⟩
    refine ⟨?_, (List.singleton_inj.mp ending).symm⟩
    intro idx bound
    simp only [List.ext_getElem_iff] at names
    have same := names.2 idx bound (by simpa using bound)
    rw [List.getElem_map, List.getElem_range] at same
    exact same.symm
  rintro ⟨names, ending⟩
  rw [ending]
  congr 1
  apply List.ext_getElem
  · simp
  intro idx bound _
  simpa using (names idx bound).symm

lemma DirEntry.hasName_unique {left right : List Byte} (leftNoNul : 0 ∉ left)
  (rightNoNul : 0 ∉ right) (one : DirEntry.hasName entry left = true)
  (two : DirEntry.hasName entry right = true) : left = right := by
  rw [DirEntry.hasName_iff] at one two
  have ends : ∀ {short long : List Byte}, 0 ∉ long → entry (4 + short.length) = 0 →
      (∀ idx (bound : idx < long.length), entry (4 + idx) = long[idx]) →
      long.length ≤ short.length := by
    intro short long noNul ending names
    by_contra longer
    have bound : short.length < long.length := by omega
    exact noNul (by rw [← ending, names _ bound]; exact List.getElem_mem bound)
  have leftLe := ends leftNoNul two.2 one.1
  have rightLe := ends rightNoNul one.2 two.1
  apply List.ext_getElem (by omega)
  intro idx leftBound rightBound
  rw [← one.1 idx leftBound, two.1 idx rightBound]

end Names

section Writing

variable {pre : Block} {entry : DirEntry} {sec : Word} {step : ℕ}

lemma DirEntry.filled_inodeSector (entry : DirEntry) (name : List Byte) (sec : Word) :
  DirEntry.inodeSector (DirEntry.filled entry name sec) = sec := by
  conv_rhs => rw [← wordOfBytes_wordByte sec]
  simp [DirEntry.inodeSector, DirEntry.filled, wordOfBytes]

section

variable (readable : disk.Readable pre)
include readable

lemma entryAt_overwritten_self (overwritten : Overwritten disk pre dev (20 * step) 20 entry)
  (fits : 20 * step + 20 ≤ disk.len) {index : ℕ} (inside : index < 20) :
  disk.entryAt dev (20 * step) index = entry index := by
  have blks := readable.blockCnt_eq
  rw [InodeDisk.entryAt, overlay_inside (Nat.zero_le _) (by unfold dirEntrySize; omega),
    Nat.sub_zero, overwritten.contents_eq _ (by omega), overlay_inside (by omega) (by omega)]
  congr 1
  omega

lemma entryAt_overwritten_of_ne (overwritten : Overwritten disk pre dev (20 * step) 20 entry)
  {other : ℕ} (ne : other ≠ step) (fits : 20 * other + 20 ≤ disk.len) :
  disk.entryAt dev (20 * other) = disk.entryAt pre (20 * other) := by
  have blks := readable.blockCnt_eq
  apply overlay_congr
  intro idx bound
  unfold dirEntrySize at bound
  rw [overwritten.contents_eq _ (by omega), overlay_outside (by omega)]

section

variable (overwritten : Overwritten disk pre dev (20 * step) 20 (DirEntry.filled entry name sec))
  (fits : 20 * step + 20 ≤ disk.len)

include overwritten fits

lemma matches_overwritten (short : name.length ≤ nameMax) :
  DirEntry.Matches (disk.entryAt dev (20 * step)) name := by
  have bytes : ∀ index, index < 20 → disk.entryAt dev (20 * step) index =
      DirEntry.filled entry name sec index :=
    fun index inside => entryAt_overwritten_self readable overwritten fits inside
  unfold nameMax at short
  constructor
  · rw [DirEntry.inUse, bytes 19 (by omega)]
    rfl
  rw [DirEntry.hasName_iff]
  constructor
  · intro index bound
    rw [bytes _ (by omega), DirEntry.filled, if_neg (by omega), if_neg (by omega), nameMax,
      if_pos (by omega), Nat.add_sub_cancel_left]
    simp [bound]
  rw [bytes _ (by omega), DirEntry.filled, if_neg (by omega), if_neg (by omega), nameMax,
    if_neg (by omega), if_pos (by omega)]

lemma inodeSector_overwritten :
  DirEntry.inodeSector (disk.entryAt dev (20 * step)) = sec := by
  rw [← DirEntry.filled_inodeSector entry name sec]
  apply wordOfBytes_congr
  intro idx bound
  exact entryAt_overwritten_self readable overwritten fits (by omega)

end

end

end Writing

end Pintos
