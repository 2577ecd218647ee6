import Pintos.Filesys.File
import Pintos.Filesys.InodeRead

/-!
# Reading up to the end of a file

A reader expects short reads: the part of a request that lies inside the file is
delivered and counted, and a count of zero means end of file. `inode_read_at`
meets this only when the request does not cross the end of the file, and a
sequence of `file_read` calls only when one of the calls stops exactly there.
-/

namespace Pintos

open Pintos.Computation

variable {fs : Fs} {address pos : ℕ} {inode : Inode} {file last : File} {sizes : List ℕ}

/-- The read returns the bytes up to the end of the file. -/
def ReadsAvailable (fs : Fs) (address : ℕ) (disk : InodeDisk) (size offset : ℕ) : Prop :=
  ∀ buffer : ℕ → Byte, inodeReadAt address buffer size offset fs =
    .ok ((((min size (disk.len - offset) : ℕ) : ℤ),
      overlay buffer 0 (min size (disk.len - offset))
        fun index => disk.contents fs.device (offset + index)), fs)

/-- A caller that reads with the given sizes one after the other. The result lists the bytes each
call delivers, as many as it says it read. -/
def fileReads (buffer : ℕ → Byte) : File → List ℕ → Kernel (File × List (List Byte))
  | file, [] => pure (file, [])
  | file, size :: sizes => do
    let (file, bytesRead, filled) ← fileRead file buffer size
    let (file, delivered) ← fileReads buffer file sizes
    pure (file, (List.range bytesRead.toNat).map filled :: delivered)

/-- The calls deliver the file's bytes in order from `pos` on, as many as were asked for and
exist, and a call that delivers nothing started at the end of the file. -/
def ReadsInOrder (fs : Fs) (buffer : ℕ → Byte) (file : File) (disk : InodeDisk) (pos : ℕ)
    (sizes : List ℕ) : Prop :=
  ∃ last delivered, fileReads buffer file sizes fs = .ok ((last, delivered), fs) ∧
    delivered.flatten = (List.range (min sizes.sum (disk.len - pos))).map
      (fun index => disk.contents fs.device (pos + index)) ∧
    ∀ call, delivered[call]? = some [] → disk.len ≤ pos + (sizes.take call).sum

lemma inodeReadAt_past_iff (heap : fs.HeapOk) (isOpen : fs.inodes address = some inode)
  (readable : inode.data.Readable fs.device) {size ofs : ℕ} (positive : 0 < size)
  (past : inode.data.len < ofs + size) (buf : ℕ → Byte) {res : (ℤ × (ℕ → Byte)) × Fs} :
  inodeReadAt address buf size ofs fs = .ok res ↔
    inode.data.Resolvable fs.device (max inode.data.len ofs) ∧
      res = ((0, overlay buf 0 (inode.data.len - ofs)
        fun idx => inode.data.contents fs.device (ofs + idx)), fs) := by
  have sizeEq := readable.size_eq
  have start : inodeReadAt address buf size ofs fs =
      inodeReadLoop address size buf size ofs (0 : ℕ) false fs := rfl
  rw [start]
  by_cases inside : ofs ≤ inode.data.len
  · obtain ⟨left, ready, enough, run⟩ := inodeReadLoop_available heap isOpen readable inside
      (show inode.data.len - ofs = min size (inode.data.len - ofs) by omega)
      (show size ≤ size from le_rfl) buf 0 false
    obtain ⟨fuel, rfl⟩ : ∃ fuel, left = fuel + 1 := ⟨left - 1, by omega⟩
    have reached : ofs + (inode.data.len - ofs) = inode.data.len := by omega
    rw [run, reached, inodeReadLoop_past isOpen (by omega) (by omega), max_eq_left inside]
  obtain ⟨fuel, rfl⟩ : ∃ fuel, size = fuel + 1 := ⟨size - 1, by omega⟩
  have nothing : inode.data.len - ofs = 0 := by omega
  rw [inodeReadLoop_past isOpen positive (by omega), max_eq_right (by omega), nothing,
    overlay_zero]

lemma readsAvailable_iff (heap : fs.HeapOk) (isOpen : fs.inodes address = some inode)
  (readable : inode.data.Readable fs.device) (size offset : ℕ) :
  ReadsAvailable fs address inode.data size offset ↔
    size = 0 ∨ offset + size ≤ inode.data.len ∨
      (inode.data.len ≤ offset ∧ inode.data.Resolvable fs.device offset) := by
  by_cases empty : size = 0
  · simp [ReadsAvailable, empty, inodeReadAt, inodeReadLoop]
  by_cases inside : offset + size ≤ inode.data.len
  · have whole : min size (inode.data.len - offset) = size := by omega
    simp only [ReadsAvailable, whole, inside, true_or, or_true, iff_true]
    exact inodeReadAt_inside heap isOpen readable inside
  simp only [ReadsAvailable, inodeReadAt_past_iff heap isOpen readable
    (Nat.pos_of_ne_zero empty) (Nat.lt_of_not_le inside), empty, inside, false_or]
  constructor
  · intro meets
    obtain ⟨resolvable, same⟩ := meets fun _ => 0
    simp only [Prod.mk.injEq] at same
    have past : inode.data.len ≤ offset := by omega
    rw [max_eq_right past] at resolvable
    exact ⟨past, resolvable⟩
  rintro ⟨past, resolvable⟩ buffer
  have nothing : inode.data.len - offset = 0 := by omega
  rw [max_eq_right past]
  exact ⟨resolvable, by simp [nothing]⟩

variable {delivered : List (List Byte)}

section

variable (heap : fs.HeapOk) (isOpen : fs.inodes address = some inode)
  (readable : inode.data.Readable fs.device) {size : ℕ} (handle : file.inode = address)
  (posn : file.pos = pos)

include heap isOpen readable handle posn

lemma fileReads_inside (inside : pos + size ≤ inode.data.len) (buf : ℕ → Byte) (sizes : List ℕ) :
  fileReads buf file (size :: sizes) fs = .ok ((last, delivered), fs) ↔
    ∃ rest, fileReads buf { file with pos := (pos + size : ℕ) } sizes fs =
        .ok ((last, rest), fs) ∧
      delivered = (List.range size).map
        (fun idx => inode.data.contents fs.device (pos + idx)) :: rest := by
  have read : fileRead file buf size fs =
      .ok (({ file with pos := (pos + size : ℕ) }, (size : ℤ), overlay buf 0 size
        fun idx => inode.data.contents fs.device (pos + idx)), fs) := by
    unfold fileRead
    rw [handle, posn, bind_of_ok (inodeReadAt_inside heap isOpen readable inside buf)]
    simp
  have bytes : (List.range size).map (overlay buf 0 size
      fun idx => inode.data.contents fs.device (pos + idx)) =
      (List.range size).map fun idx => inode.data.contents fs.device (pos + idx) := by
    apply List.map_congr_left
    intro idx mem
    rw [List.mem_range] at mem
    rw [overlay_inside (Nat.zero_le idx) (by omega), Nat.sub_zero]
  rw [fileReads, bind_of_ok read]
  simp only [Int.toNat_natCast, bytes]
  constructor
  · intro ran
    obtain ⟨⟨final, rest⟩, mid, tail, same⟩ := bind_eq_ok ran
    cases same
    exact ⟨rest, tail, rfl⟩
  rintro ⟨rest, tail, rfl⟩
  rw [bind_of_ok tail]
  rfl

lemma fileReads_past (positive : 0 < size) (inside : pos ≤ inode.data.len)
  (past : inode.data.len < pos + size) (buf : ℕ → Byte) (sizes : List ℕ) :
  fileReads buf file (size :: sizes) fs = .ok ((last, delivered), fs) ↔
    inode.data.Resolvable fs.device inode.data.len ∧
      ∃ rest, fileReads buf file sizes fs = .ok ((last, rest), fs) ∧
        delivered = [] :: rest := by
  rw [fileReads]
  constructor
  · intro ran
    obtain ⟨⟨next, cnt, filled⟩, mid, read, tail⟩ := bind_eq_ok ran
    obtain ⟨⟨bytesRead, copied⟩, between, readAt, moved⟩ := bind_eq_ok read
    rw [handle, posn] at readAt
    obtain ⟨resolvable, same⟩ :=
      (inodeReadAt_past_iff heap isOpen readable positive past buf).mp readAt
    rw [max_eq_left inside] at resolvable
    cases same
    cases moved
    obtain ⟨⟨final, rest⟩, ending, others, same⟩ := bind_eq_ok tail
    cases same
    refine ⟨resolvable, rest, ?_, rfl⟩
    simpa using others
  rintro ⟨resolvable, rest, tail, rfl⟩
  rw [← max_eq_left inside] at resolvable
  have readAt := (inodeReadAt_past_iff heap isOpen readable positive past buf).mpr
    ⟨resolvable, rfl⟩
  have read : fileRead file buf size fs = .ok ((file, 0, overlay buf 0 (inode.data.len - pos)
        fun idx => inode.data.contents fs.device (pos + idx)), fs) := by
    unfold fileRead
    rw [handle, posn, bind_of_ok readAt]
    simp [← posn, ← handle]
  rw [bind_of_ok read]
  simp only []
  rw [bind_of_ok tail]
  rfl

end

def StopsAtEnd (fs : Fs) (disk : InodeDisk) (pos : ℕ) (sizes : List ℕ) : Prop :=
  pos + sizes.sum ≤ disk.len ∨
    ((∃ calls, pos + (sizes.take calls).sum = disk.len) ∧ disk.Resolvable fs.device disk.len)

section Stops

variable {disk : InodeDisk} {size : ℕ}

lemma stopsAtEnd_inside (positive : 0 < size) (fits : pos + size ≤ disk.len) :
  StopsAtEnd fs disk pos (size :: sizes) ↔ StopsAtEnd fs disk (pos + size) sizes := by
  refine or_congr (by simp [Nat.add_assoc]) (and_congr_left fun _ => ?_)
  constructor
  · rintro ⟨calls, stop⟩
    cases calls with
    | zero =>
      simp at stop
      omega
    | succ calls => exact ⟨calls, by simpa [Nat.add_assoc] using stop⟩
  rintro ⟨calls, stop⟩
  exact ⟨calls + 1, by simpa [Nat.add_assoc] using stop⟩

lemma stopsAtEnd_past (past : disk.len < pos + size) : StopsAtEnd fs disk pos (size :: sizes) ↔
    pos = disk.len ∧ disk.Resolvable fs.device disk.len := by
  constructor
  · rintro (short | ⟨⟨calls, stop⟩, resolvable⟩)
    · rw [List.sum_cons] at short
      omega
    refine ⟨?_, resolvable⟩
    cases calls with
    | zero => simpa using stop
    | succ calls =>
      simp only [List.take_succ_cons, List.sum_cons] at stop
      omega
  rintro ⟨atEnd, resolvable⟩
  exact Or.inr ⟨⟨0, by simpa using atEnd⟩, resolvable⟩

end Stops

section InOrder

variable {size : ℕ} (heap : fs.HeapOk) (isOpen : fs.inodes address = some inode)
  (readable : inode.data.Readable fs.device) (buf : ℕ → Byte) (handle : file.inode = address)
  (posn : file.pos = pos)

include heap isOpen readable handle posn

lemma readsInOrder_inside (positive : 0 < size) (fits : pos + size ≤ inode.data.len) :
  ReadsInOrder fs buf file inode.data pos (size :: sizes) ↔
    ReadsInOrder fs buf { file with pos := (pos + size : ℕ) } inode.data (pos + size) sizes := by
  have cnt : min (size :: sizes).sum (inode.data.len - pos) =
      size + min sizes.sum (inode.data.len - (pos + size)) := by
    rw [List.sum_cons]
    omega
  constructor
  · rintro ⟨last, delivered, run, bytes, empties⟩
    rcases (fileReads_inside heap isOpen readable handle posn fits buf sizes).mp run with
      ⟨rest, restRun, rfl⟩
    rw [cnt, List.range_add, List.map_append] at bytes
    refine ⟨last, rest, restRun, ?_, ?_⟩
    · simpa [Function.comp_def, Nat.add_assoc] using List.append_cancel_left bytes
    intro call nothing
    simpa [Nat.add_assoc] using empties (call + 1) (by simpa using nothing)
  rintro ⟨last, rest, run, bytes, empties⟩
  refine ⟨last, _, (fileReads_inside heap isOpen readable handle posn fits buf sizes).mpr
    ⟨rest, run, rfl⟩, ?_, ?_⟩
  · rw [List.flatten_cons, bytes, cnt, List.range_add, List.map_append]
    simp [Nat.add_assoc]
  intro call nothing
  cases call with
  | zero =>
    simp at nothing
    omega
  | succ call => simpa [Nat.add_assoc] using empties call (by simpa using nothing)

lemma readsInOrder_iff (inside : pos ≤ inode.data.len) (positive : ∀ size ∈ sizes, 0 < size) :
  ReadsInOrder fs buf file inode.data pos sizes ↔ StopsAtEnd fs inode.data pos sizes := by
  induction sizes generalizing file pos with
  | nil => exact iff_of_true ⟨file, [], rfl, by simp, by simp⟩ (Or.inl (by simpa using inside))
  | cons size sizes ih =>
    have sizePos : 0 < size := positive size List.mem_cons_self
    have restPos : ∀ other ∈ sizes, 0 < other := fun other mem =>
      positive other (List.mem_cons_of_mem size mem)
    by_cases fits : pos + size ≤ inode.data.len
    · rw [readsInOrder_inside heap isOpen readable buf handle posn sizePos fits,
        stopsAtEnd_inside sizePos fits]
      exact ih handle rfl fits restPos
    have past : inode.data.len < pos + size := by omega
    rw [stopsAtEnd_past past]
    constructor
    · rintro ⟨last, delivered, run, bytes, empties⟩
      rcases (fileReads_past heap isOpen readable handle posn sizePos inside past buf sizes).mp run
        with ⟨resolvable, rest, _, rfl⟩
      have atEnd := empties 0 rfl
      simp only [List.take_zero, List.sum_nil] at atEnd
      exact ⟨by omega, resolvable⟩
    rintro ⟨atEnd, resolvable⟩
    rcases (ih handle posn inside restPos).mpr
      (Or.inr ⟨⟨0, by simpa using atEnd⟩, resolvable⟩) with ⟨last, rest, run, bytes, empties⟩
    refine ⟨last, _, (fileReads_past heap isOpen readable handle posn sizePos inside past buf
      sizes).mpr ⟨resolvable, rest, run, rfl⟩, ?_, ?_⟩
    · have nothing : inode.data.len - pos = 0 := by omega
      simpa [nothing] using bytes
    intro call _
    omega

end InOrder

/-- Reads are short, and not lost, exactly when they do not cross the end of the file: a single
request must end inside the file or start at its end, and in a sequence of reads from the start
of the file some read must stop exactly at the end before any read runs past it. -/
theorem shortReads_iff (heap : fs.HeapOk) (isOpen : fs.inodes address = some inode)
    (readable : inode.data.Readable fs.device) :
    (∀ size offset, ReadsAvailable fs address inode.data size offset ↔
      size = 0 ∨ offset + size ≤ inode.data.len ∨
        (inode.data.len ≤ offset ∧ inode.data.Resolvable fs.device offset)) ∧
    ∀ (buffer : ℕ → Byte) (denyWrite : Bool) (sizes : List ℕ), (∀ size ∈ sizes, 0 < size) →
      (ReadsInOrder fs buffer ⟨address, 0, denyWrite⟩ inode.data 0 sizes ↔
        sizes.sum ≤ inode.data.len ∨
          ((∃ calls, (sizes.take calls).sum = inode.data.len) ∧
            inode.data.Resolvable fs.device inode.data.len)) := by
  refine ⟨readsAvailable_iff heap isOpen readable, ?_⟩
  intro buffer denyWrite sizes positive
  have stops : StopsAtEnd fs inode.data 0 sizes ↔ sizes.sum ≤ inode.data.len ∨
      ((∃ calls, (sizes.take calls).sum = inode.data.len) ∧
        inode.data.Resolvable fs.device inode.data.len) := by
    simp [StopsAtEnd]
  rw [← stops]
  exact readsInOrder_iff heap isOpen readable buffer rfl rfl (Nat.zero_le _) positive

/-- Both conditions at a file of one byte: a read of the byte, then one that starts at the end. -/
theorem shortReads_iff_oneByte :
    ReadsAvailable (smallFs 1) 0 (smallInode 1).data 1 0 ∧
      ReadsInOrder (smallFs 1) (fun _ => 0) ⟨0, 0, false⟩ (smallInode 1).data 0 [1, 5] := by
  have both := shortReads_iff (smallFs_heapOk 1) (smallFs_inodes 1)
    (smallFs_wellFormed_one).toReadable
  refine ⟨(both.1 1 0).mpr (Or.inr (Or.inl (by decide))), ?_⟩
  refine (both.2 _ _ [1, 5] (by decide)).mpr (Or.inr ⟨⟨1, by decide⟩, Or.inl (by decide)⟩)

/-- A request for two bytes of a one-byte file copies the byte and reports that nothing was
read. -/
theorem inodeReadAt_oneByte_lost :
    (smallInode 1).data.len = 1 ∧
      (∃ filled, inodeReadAt 0 (fun _ => 1) 2 0 (smallFs 1) = .ok ((0, filled), smallFs 1)) ∧
      ¬ ReadsAvailable (smallFs 1) 0 (smallInode 1).data 2 0 := by
  have past := @inodeReadAt_past_iff _ _ _ (smallFs_heapOk 1) (smallFs_inodes 1)
    smallFs_wellFormed_one.toReadable 2 0 (by decide) (by decide) (fun _ => 1)
  refine ⟨by decide, ⟨_, past.mpr ⟨Or.inl (by decide), rfl⟩⟩, ?_⟩
  rw [readsAvailable_iff (smallFs_heapOk 1) (smallFs_inodes 1) smallFs_wellFormed_one.toReadable]
  rintro (empty | inside | ⟨past, _⟩)
  · exact absurd empty (by decide)
  · exact absurd inside (by decide)
  · exact absurd past (by decide)

end Pintos
