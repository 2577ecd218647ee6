import Pintos.Devices.Block

/-!
# Partition tables

`devices/partition.c`. A partition table is a sector with four entries and a signature. An
entry is empty, describes a partition, or leads to a further table.

Each level of the recursion in `read_partition_table` holds a block of the heap, and the
number of blocks that `malloc` can give for this bounds its depth: when there is none left,
the function panics. The descriptors of the partitions that are found, and the names they are
registered under, are left out.
-/

namespace Pintos.Partition

open Pintos.Computation

/-- `struct partition_table_entry`, without the fields that nothing reads. -/
structure TableEntry where
  type : Byte
  offset : Word
  size : Word
deriving DecidableEq

namespace TableEntry

def Empty (entry : TableEntry) : Prop := entry.size = 0 ∨ entry.type = 0
deriving Decidable

def HasExtendedType (entry : TableEntry) : Prop :=
  entry.type = 0x05 ∨ entry.type = 0x0f ∨ entry.type = 0x85 ∨ entry.type = 0xc5
deriving Decidable

def Extended (entry : TableEntry) : Prop := ¬entry.Empty ∧ entry.HasExtendedType
deriving Decidable

def Plain (entry : TableEntry) : Prop := ¬entry.Empty ∧ ¬entry.HasExtendedType
deriving Decidable

end TableEntry

/-- `struct partition_table`, without the loader. -/
structure PartitionTable where
  partitions : ℕ → TableEntry
  signature : BitVec 16

/-- The partition table in a sector. The entries start at byte 446 and take sixteen bytes each,
and the signature is in the last two bytes. -/
def PartitionTable.decode (sector : Sector) : PartitionTable where
  partitions index :=
    { type := sector.bytes (446 + 16 * index + 4)
      offset := wordOfBytes fun position => sector.bytes (446 + 16 * index + 8 + position)
      size := wordOfBytes fun position => sector.bytes (446 + 16 * index + 12 + position) }
  signature := sector.bytes 511 ++ sector.bytes 510

inductive BlockType
  | kernel
  | filesys
  | scratch
  | swap
  | foreign
deriving DecidableEq

inductive Event
  /-- `block_read`. -/
  | read (sector : ℕ)
  /-- "Partition table at sector … past end of device." -/
  | tablePastEnd (sector : Word)
  /-- "Invalid partition table signature" -/
  | invalidSignature
  /-- "Invalid extended partition table in sector …" -/
  | invalidExtended (sector : Word)
  /-- "Extended partition in sector …" -/
  | extendedIn (sector : Word)
  /-- `found_partition` is called. -/
  | found (type : Byte) (start size : Word) (partNr : ℕ)
  /-- "Partition starts past end of device" -/
  | startsPastEnd (partNr : ℕ) (start : Word)
  /-- "Partition end (…) past end of device" -/
  | endsPastEnd (partNr : ℕ) (end_ : Word)
  /-- `block_register`. -/
  | register (partNr : ℕ) (type : BlockType) (start size : Word)
  /-- "Device contains no partitions" -/
  | noPartitions
deriving DecidableEq

structure Scan where
  partNr : ℕ
  events : List Event

abbrev Scanner := Computation Stop Scan

def emit (event : Event) : Scanner Unit :=
  updates fun scan => { scan with events := scan.events ++ [event] }

def blockRead (block : Block) (sector : ℕ) : Scanner Sector :=
  if block.size ≤ sector then stop .panic
  else do
    emit (.read sector)
    pure (block.sectors sector)

def blockType (partType : Byte) : BlockType :=
  if partType = 0x20 then .kernel
  else if partType = 0x21 then .filesys
  else if partType = 0x22 then .scratch
  else if partType = 0x23 then .swap
  else .foreign

def foundPartition (block : Block) (partType : Byte) (start size : Word) (partNr : ℕ) :
    Scanner Unit := do
  emit (.found partType start size partNr)
  if block.size ≤ start.toNat then emit (.startsPastEnd partNr start)
  else if start + size < start ∨ block.size < (start + size).toNat then
    emit (.endsPastEnd partNr (start + size))
  else emit (.register partNr (blockType partType) start size)

/-- One round of the loop in `read_partition_table`, with the function itself as `readTable`. -/
def readEntry (block : Block) (readTable : Word → Word → Scanner Unit)
    (sector primaryExtendedSector : Word) (entry : TableEntry) : Scanner Unit :=
  if entry.Empty then pure ()
  else if entry.HasExtendedType then do
    emit (.extendedIn sector)
    if sector = 0 then readTable entry.offset entry.offset
    else readTable (entry.offset + primaryExtendedSector) primaryExtendedSector
  else do
    updates fun scan => { scan with partNr := scan.partNr + 1 }
    let partNr ← reads Scan.partNr
    foundPartition block entry.type (entry.offset + sector) entry.size partNr

def readEntries (block : Block) (readTable : Word → Word → Scanner Unit)
    (sector primaryExtendedSector : Word) (pt : PartitionTable) : Scanner Unit :=
  if pt.signature ≠ 0xaa55 then
    if primaryExtendedSector = 0 then emit .invalidSignature else emit (.invalidExtended sector)
  else
    (List.range 4).forM fun index =>
      readEntry block readTable sector primaryExtendedSector (pt.partitions index)

/-- `read_partition_table`, when `malloc` can give blocks for `room` tables. -/
def readPartitionTable (block : Block) (room : ℕ) (sector primaryExtendedSector : Word) :
    Scanner Unit :=
  if block.size ≤ sector.toNat then emit (.tablePastEnd sector)
  else
    match room with
    | 0 => stop .panic
    | room + 1 => do
      let data ← blockRead block 0
      readEntries block (readPartitionTable block room) sector primaryExtendedSector
        (PartitionTable.decode data)

def partitionScan (block : Block) (room : ℕ) : Scanner Unit := do
  updates fun scan => { scan with partNr := 0 }
  readPartitionTable block room 0 0
  let partNr ← reads Scan.partNr
  if partNr = 0 then emit .noPartitions else pure ()

def tableAt (block : Block) (sector : ℕ) : PartitionTable :=
  PartitionTable.decode (block.sectors sector)

/-- The sectors that the tables of a device designate, each with the sector of the extended
partition that the primary table points to. The offset of an entry is absolute in sector 0, and
relative to that sector elsewhere. -/
inductive Designated (block : Block) : Word → Word → Prop
  | primary : Designated block 0 0
  | nested {sector primaryExtendedSector : Word} {index : ℕ}
      (before : Designated block sector primaryExtendedSector)
      (inside : sector.toNat < block.size)
      (valid : (tableAt block sector.toNat).signature = 0xaa55) (indexLt : index < 4)
      (extended : ((tableAt block sector.toNat).partitions index).Extended) :
      Designated block
        (if sector = 0 then ((tableAt block sector.toNat).partitions index).offset
        else ((tableAt block sector.toNat).partitions index).offset + primaryExtendedSector)
        (if sector = 0 then ((tableAt block sector.toNat).partitions index).offset
        else primaryExtendedSector)

def IsTable (block : Block) (sector : Word) : Prop :=
  sector.toNat < block.size ∧ ∃ primaryExtendedSector, Designated block sector primaryExtendedSector

def Describes (block : Block) (sector : Word) (index : ℕ) : Prop :=
  IsTable block sector ∧ (tableAt block sector.toNat).signature = 0xaa55 ∧ index < 4 ∧
    ((tableAt block sector.toNat).partitions index).Plain

abbrev Report := Byte × Word × Word

def partitionAt (block : Block) (sector : Word) (index : ℕ) : Report :=
  let entry := (tableAt block sector.toNat).partitions index
  (entry.type, entry.offset + sector, entry.size)

namespace Event

def sectorRead : Event → Option ℕ
  | .read sector => some sector
  | _ => none

def reported : Event → Option Report
  | .found type start size _ => some (type, start, size)
  | _ => none

end Event

namespace Scan

def sectorsRead (scan : Scan) : List ℕ := scan.events.filterMap Event.sectorRead

def reports (scan : Scan) : List Report := scan.events.filterMap Event.reported

end Scan

/-- The scan returns when there is room enough, reads each designated table once and nothing else,
and reports the partition of each entry that describes one, once. -/
def ScansRight (block : Block) : Prop :=
  ∃ enough, ∀ room, enough ≤ room → ∃ after,
    partitionScan block room ⟨0, []⟩ = .ok ((), after) ∧
    after.sectorsRead.Nodup ∧
    (∀ number, number ∈ after.sectorsRead ↔
      ∃ sector, IsTable block sector ∧ number = sector.toNat) ∧
    ∃ described : List (Word × ℕ), described.Nodup ∧
      (∀ sector index, (sector, index) ∈ described ↔ Describes block sector index) ∧
      after.reports = described.map fun place => partitionAt block place.1 place.2

/-- The table in sector 0 leads to no other table. -/
def Flat (block : Block) : Prop :=
  (tableAt block 0).signature = 0xaa55 → ∀ index, index < 4 →
    ((tableAt block 0).partitions index).Extended →
    block.size ≤ ((tableAt block 0).partitions index).offset.toNat

def ReadsZero (before after : Scan) : Prop :=
  ∃ count, after.sectorsRead = before.sectorsRead ++ List.replicate count 0

instance : IsPreorder Scan ReadsZero where
  refl _ := ⟨0, (List.append_nil _).symm⟩
  trans := by
    rintro first second third ⟨count, isSecond⟩ ⟨more, isThird⟩
    refine ⟨count + more, ?_⟩
    rw [isThird, isSecond, List.append_assoc, List.replicate_append_replicate]

lemma sectorsRead_append (scan : Scan) (event : Event) :
  ({ scan with events := scan.events ++ [event] } : Scan).sectorsRead =
    scan.sectorsRead ++ event.sectorRead.toList := by
  rw [Scan.sectorsRead, Scan.sectorsRead, List.filterMap_append, List.filterMap_cons,
    List.filterMap_nil]
  cases event.sectorRead <;> rfl

lemma emit_readsZero {event : Event} (notRead : event.sectorRead = none) :
  Preserves ReadsZero (emit event) := by
  refine .updates fun scan => ⟨0, ?_⟩
  rw [sectorsRead_append, notRead]
  rfl

lemma foundPartition_readsZero (block : Block) (partType : Byte) (start size : Word)
  (partNr : ℕ) : Preserves ReadsZero (foundPartition block partType start size partNr) :=
  .bind (emit_readsZero rfl) fun _ =>
    .ite (emit_readsZero rfl) (.ite (emit_readsZero rfl) (emit_readsZero rfl))

variable {readTable : Word → Word → Scanner Unit} {block : Block} {primary : Word} {room index : ℕ}
  {entry : TableEntry} {pt : PartitionTable}

lemma readEntry_readsZero (block : Block)
  (tableReads : ∀ sector primary, Preserves ReadsZero (readTable sector primary))
  (sector primary : Word) (entry : TableEntry) :
  Preserves ReadsZero (readEntry block readTable sector primary entry) := by
  refine .ite (.pure _) (.ite (.bind (emit_readsZero rfl) fun _ => ?_) ?_)
  · exact .ite (tableReads _ _) (tableReads _ _)
  refine .bind (.updates fun scan => ⟨0, (List.append_nil _).symm⟩) fun _ => ?_
  exact .bind (.reads _) fun partNr => foundPartition_readsZero block _ _ _ partNr

lemma readEntries_readsZero (block : Block)
  (tableReads : ∀ sector primary, Preserves ReadsZero (readTable sector primary))
  (sector primary : Word) (pt : PartitionTable) :
  Preserves ReadsZero (readEntries block readTable sector primary pt) :=
  .ite (.ite (emit_readsZero rfl) (emit_readsZero rfl))
    (.forM _ fun _ _ => readEntry_readsZero block tableReads sector primary _)

lemma blockRead_zero (inside : 0 < block.size) (scan : Scan) : blockRead block 0 scan =
    .ok (block.sectors 0, { scan with events := scan.events ++ [.read 0] }) := by
  rw [blockRead, if_neg (by omega)]
  rfl

lemma readPartitionTable_readsZero (block : Block) (room : ℕ) (sector primary : Word) :
  Preserves ReadsZero (readPartitionTable block room sector primary) := by
  induction room generalizing sector primary with
  | zero =>
    exact .ite (emit_readsZero rfl) (.stop _)
  | succ room ih =>
    refine .ite (emit_readsZero rfl) (.bind ?_ fun data => ?_)
    · refine .ite (.stop _) (.bind (.updates fun scan => ⟨1, ?_⟩) fun _ => .pure _)
      exact sectorsRead_append scan _
    · exact readEntries_readsZero block ih sector primary _

section

variable {sector : Word} {scan after : Scan} (inside : sector.toNat < block.size)
  (returned : readPartitionTable block room sector primary scan = .ok ((), after))

include inside returned

lemma readPartitionTable_eq_ok :
  ∃ less, room = less + 1 ∧
    readEntries block (readPartitionTable block less) sector primary (tableAt block 0)
      { scan with events := scan.events ++ [.read 0] } = .ok ((), after) := by
  unfold readPartitionTable at returned
  rw [if_neg (by omega)] at returned
  cases room with
  | zero => cases returned
  | succ less =>
    refine ⟨less, rfl, ?_⟩
    dsimp only at returned
    rwa [bind_of_ok (blockRead_zero (by omega) scan)] at returned

lemma sectorsRead_of_inside :
  ∃ count, after.sectorsRead = scan.sectorsRead ++ List.replicate (count + 1) 0 := by
  rcases readPartitionTable_eq_ok inside returned with ⟨less, _, ranEntries⟩
  rcases readEntries_readsZero block (readPartitionTable_readsZero block less) sector primary _
    ranEntries with ⟨count, isAfter⟩
  refine ⟨count, ?_⟩
  rw [isAfter, sectorsRead_append, List.append_assoc]
  rfl

end

def nextTable (sector primary : Word) (entry : TableEntry) : Word × Word :=
  if sector = 0 then (entry.offset, entry.offset) else (entry.offset + primary, primary)

lemma readEntry_extended {sector : Word} (extended : entry.Extended) :
  readEntry block readTable sector primary entry = emit (.extendedIn sector) >>= fun _ =>
    readTable (nextTable sector primary entry).1 (nextTable sector primary entry).2 := by
  rw [readEntry, if_neg extended.1, if_pos extended.2, nextTable]
  split <;> rfl

lemma nested_of_readEntries
  (tableReads : ∀ sector primary, Preserves ReadsZero (readTable sector primary)) {sector : Word}
  {scan after : Scan} (valid : pt.signature = 0xaa55) (indexLt : index < 4)
  (extended : (pt.partitions index).Extended)
  (returned : readEntries block readTable sector primary pt scan = .ok ((), after)) :
  ∃ first second, ReadsZero scan first ∧
    readTable (nextTable sector primary (pt.partitions index)).1
      (nextTable sector primary (pt.partitions index)).2 first = .ok ((), second) ∧
    ReadsZero second after := by
  rw [readEntries, if_neg (not_not.mpr valid)] at returned
  rcases Preserves.round_of_forM
    (fun _ _ => readEntry_readsZero block tableReads sector primary _) returned
    (List.mem_range.mpr indexLt) with ⟨first, second, toFirst, ran, toAfter⟩
  rw [readEntry_extended extended] at ran
  rcases bind_eq_ok ran with ⟨_, middle, emitted, ranTable⟩
  exact ⟨middle, second, IsTrans.trans _ _ _ toFirst (emit_readsZero rfl emitted), ranTable,
    toAfter⟩

def LeadsInside (block : Block) : Prop :=
  (tableAt block 0).signature = 0xaa55 ∧ ∃ index, index < 4 ∧
    ((tableAt block 0).partitions index).Extended ∧
    ((tableAt block 0).partitions index).offset.toNat < block.size

lemma not_flat_iff (block : Block) : ¬Flat block ↔ LeadsInside block := by
  unfold Flat LeadsInside
  push Not
  rfl

lemma not_scansRight_of_leadsInside (leadsInside : LeadsInside block) : ¬ScansRight block := by
  rcases leadsInside with ⟨valid, index, indexLt, extended, inside⟩
  rintro ⟨enough, scans⟩
  rcases scans enough le_rfl with ⟨after, returned, distinct, _⟩
  rcases bind_eq_ok returned with ⟨_, _, started, rest⟩
  cases started
  rcases bind_eq_ok rest with ⟨_, middle, ranTable, ended⟩
  have zeroInside : (0 : Word).toNat < block.size := by
    change 0 < block.size
    omega
  rcases readPartitionTable_eq_ok zeroInside ranTable with ⟨less, _, ranEntries⟩
  rcases nested_of_readEntries (readPartitionTable_readsZero block less) valid indexLt extended
    ranEntries with ⟨first, second, ⟨countFirst, isFirst⟩, ranNested, ⟨countMiddle, isMiddle⟩⟩
  rcases sectorsRead_of_inside inside ranNested with ⟨countSecond, isSecond⟩
  have isEnd : ReadsZero middle after := by
    refine Preserves.bind (.reads Scan.partNr) (fun partNr => ?_) ended
    exact .ite (emit_readsZero rfl) (.pure _)
  rcases isEnd with ⟨countAfter, isAfter⟩
  rw [isAfter, isMiddle, isSecond, isFirst, sectorsRead_append] at distinct
  have once := List.nodup_iff_count_le_one.mp distinct 0
  simp only [List.count_append, List.count_replicate_self, Event.sectorRead, Option.toList_some,
    List.count_singleton_self] at once
  omega

def Stuck (block : Block) (table : Word × Word) : Prop :=
  ∀ room scan after, readPartitionTable block room table.1 table.2 scan ≠ .ok ((), after)

section Stuck

variable {table : Word × Word} (inside : table.1.toNat < block.size)
  (valid : (tableAt block 0).signature = 0xaa55) (indexLt : index < 4)
  (extended : ((tableAt block 0).partitions index).Extended)

include inside valid indexLt extended

lemma stuck_of_next
  (next : Stuck block (nextTable table.1 table.2 ((tableAt block 0).partitions index))) :
  Stuck block table := by
  intro room scan after returned
  rcases readPartitionTable_eq_ok inside returned with ⟨less, _, ranEntries⟩
  rcases nested_of_readEntries (readPartitionTable_readsZero block less) valid indexLt extended
    ranEntries with ⟨first, second, _, ranNested, _⟩
  exact next less first second ranNested

lemma stuck_of_self
  (self : nextTable table.1 table.2 ((tableAt block 0).partitions index) = table) :
  Stuck block table := by
  intro room
  induction room with
  | zero =>
    intro scan after returned
    rcases readPartitionTable_eq_ok inside returned with ⟨less, isLess, _⟩
    omega
  | succ room ih =>
    intro scan after returned
    rcases readPartitionTable_eq_ok inside returned with ⟨less, isLess, ranEntries⟩
    rcases nested_of_readEntries (readPartitionTable_readsZero block less) valid indexLt extended
      ranEntries with ⟨first, second, _, ranNested, _⟩
    rw [self] at ranNested
    obtain rfl : room = less := by omega
    exact ih first second ranNested

end Stuck

lemma not_returns_of_stuck (stuck : Stuck block (0, 0)) (room : ℕ) (scan : Scan) :
  ∀ after, partitionScan block room scan ≠ .ok ((), after) := by
  intro after returned
  rcases bind_eq_ok returned with ⟨_, started, _, rest⟩
  rcases bind_eq_ok rest with ⟨_, middle, ranTable, _⟩
  exact stuck room started middle ranTable

lemma Flat.designated (flat : Flat block) {sector : Word}
  (designated : Designated block sector primary) : sector = 0 ∨ block.size ≤ sector.toNat := by
  induction designated with
  | primary => exact Or.inl rfl
  | @nested sector primary index _ inside valid indexLt extended ih =>
    rcases ih with rfl | outside
    · rw [if_pos rfl]
      exact Or.inr (flat valid index indexLt extended)
    · omega

lemma Flat.isTable_iff (flat : Flat block) (sector : Word) :
  IsTable block sector ↔ sector = 0 ∧ 0 < block.size := by
  constructor
  · rintro ⟨inside, primary, designated⟩
    rcases flat.designated designated with rfl | outside
    · exact ⟨rfl, inside⟩
    · omega
  rintro ⟨rfl, inside⟩
  exact ⟨inside, 0, .primary⟩

lemma reports_append (scan : Scan) (event : Event) :
  ({ scan with events := scan.events ++ [event] } : Scan).reports =
    scan.reports ++ event.reported.toList := by
  rw [Scan.reports, Scan.reports, List.filterMap_append, List.filterMap_cons]
  cases event.reported <;> rfl

def Reporting (reports : List Report) (before after : Scan) : Prop :=
  after.sectorsRead = before.sectorsRead ∧ after.reports = before.reports ++ reports

lemma Reporting.trans {first second third : Scan} {reports more : List Report}
  (toSecond : Reporting reports first second) (toThird : Reporting more second third) :
  Reporting (reports ++ more) first third :=
  ⟨toThird.1.trans toSecond.1, by rw [toThird.2, toSecond.2, List.append_assoc]⟩

lemma emit_reporting (event : Event) (notRead : event.sectorRead = none) (scan : Scan) :
  ∃ after, emit event scan = .ok ((), after) ∧ Reporting event.reported.toList scan after := by
  refine ⟨_, rfl, ?_, reports_append scan event⟩
  rw [sectorsRead_append, notRead]
  exact List.append_nil _

lemma foundPartition_reporting (block : Block) (partType : Byte) (start size : Word)
  (partNr : ℕ) (scan : Scan) :
  ∃ after, foundPartition block partType start size partNr scan = .ok ((), after) ∧
    Reporting [(partType, start, size)] scan after := by
  rcases emit_reporting (.found partType start size partNr) rfl scan with ⟨middle, emitted, first⟩
  rw [foundPartition, bind_of_ok emitted]
  have rest : ∀ event : Event, event.sectorRead = none → event.reported = none →
      ∃ after, emit event middle = .ok ((), after) ∧
        Reporting [(partType, start, size)] scan after := by
    intro event notRead notReported
    rcases emit_reporting event notRead middle with ⟨after, emitted, second⟩
    rw [notReported] at second
    exact ⟨after, emitted, first.trans second⟩
  split
  · exact rest _ rfl rfl
  split
  · exact rest _ rfl rfl
  · exact rest _ rfl rfl

lemma readEntry_reporting (outside : entry.Extended → block.size ≤ entry.offset.toNat)
  (scan : Scan) :
  ∃ after, readEntry block (readPartitionTable block room) 0 0 entry scan = .ok ((), after) ∧
    Reporting (if entry.Plain then [(entry.type, entry.offset + 0, entry.size)] else []) scan
      after := by
  by_cases isEmpty : entry.Empty
  · rw [readEntry, if_pos isEmpty, if_neg fun plain => plain.1 isEmpty]
    exact ⟨scan, rfl, rfl, (List.append_nil _).symm⟩
  by_cases hasType : entry.HasExtendedType
  · rcases emit_reporting (.extendedIn 0) rfl scan with ⟨middle, emitted, first⟩
    rcases emit_reporting (.tablePastEnd entry.offset) rfl middle with ⟨after, printed, second⟩
    have past : readPartitionTable block room entry.offset entry.offset middle =
        .ok ((), after) := by
      unfold readPartitionTable
      rw [if_pos (outside ⟨isEmpty, hasType⟩), printed]
    rw [if_neg fun plain => plain.2 hasType, readEntry_extended ⟨isEmpty, hasType⟩,
      bind_of_ok emitted]
    exact ⟨after, past, first.trans second⟩
  rw [readEntry, if_neg isEmpty, if_neg hasType, if_pos ⟨isEmpty, hasType⟩,
    updates_bind_apply, reads_bind_apply]
  rcases foundPartition_reporting block entry.type (entry.offset + 0) entry.size
    (scan.partNr + 1) { scan with partNr := scan.partNr + 1 } with ⟨after, found, reporting⟩
  exact ⟨after, found, reporting⟩

lemma readEntries_reporting (indices : List ℕ)
  (outside : ∀ index ∈ indices, (pt.partitions index).Extended →
    block.size ≤ (pt.partitions index).offset.toNat) (scan : Scan) :
  ∃ after, (indices.forM fun index =>
      readEntry block (readPartitionTable block room) 0 0 (pt.partitions index)) scan =
        .ok ((), after) ∧
    Reporting ((indices.filter fun index => (pt.partitions index).Plain).map fun index =>
      ((pt.partitions index).type, (pt.partitions index).offset + 0,
        (pt.partitions index).size)) scan after := by
  induction indices generalizing scan with
  | nil => exact ⟨scan, rfl, rfl, (List.append_nil _).symm⟩
  | cons index rest ih =>
    rcases @readEntry_reporting block room _ (outside index List.mem_cons_self) scan with
      ⟨middle, ran, first⟩
    rcases ih (fun later isLater => outside later (List.mem_cons_of_mem _ isLater)) middle with
      ⟨after, ranRest, second⟩
    refine ⟨after, (bind_of_ok ran).trans ranRest, ?_⟩
    have both := first.trans second
    by_cases plain : (pt.partitions index).Plain
    · rw [if_pos plain] at both
      rw [List.filter_cons_of_pos (by simpa using plain)]
      exact both
    rw [if_neg plain] at both
    rw [List.filter_cons_of_neg (by simpa using plain)]
    exact both

def primaryEntries (block : Block) : List (Word × ℕ) :=
  if 0 < block.size ∧ (tableAt block 0).signature = 0xaa55 then
    ((List.range 4).filter fun index => ((tableAt block 0).partitions index).Plain).map fun index =>
      (0, index)
  else []

lemma mem_primaryEntries (flat : Flat block) (sector : Word) (index : ℕ) :
  (sector, index) ∈ primaryEntries block ↔ Describes block sector index := by
  rw [Describes, flat.isTable_iff, primaryEntries]
  by_cases valid : 0 < block.size ∧ (tableAt block 0).signature = 0xaa55
  · rw [if_pos valid]
    simp only [List.mem_map, List.mem_filter, List.mem_range, decide_eq_true_eq, Prod.mk.injEq]
    constructor
    · rintro ⟨found, ⟨indexLt, plain⟩, rfl, rfl⟩
      exact ⟨⟨rfl, valid.1⟩, valid.2, indexLt, plain⟩
    rintro ⟨⟨rfl, _⟩, _, indexLt, plain⟩
    exact ⟨index, ⟨indexLt, plain⟩, rfl, rfl⟩
  rw [if_neg valid]
  simp only [List.not_mem_nil, false_iff]
  rintro ⟨⟨rfl, inside⟩, isValid, _⟩
  exact valid ⟨inside, isValid⟩

lemma nodup_primaryEntries (block : Block) : (primaryEntries block).Nodup := by
  rw [primaryEntries]
  split
  · exact (List.nodup_range.filter _).map fun left right same => (Prod.mk.inj same).2
  · exact List.nodup_nil

lemma readPartitionTable_of_flat (flat : Flat block) (room : ℕ) :
  ∃ after, readPartitionTable block (room + 1) 0 0 ⟨0, []⟩ = .ok ((), after) ∧
    after.sectorsRead = (if 0 < block.size then [0] else []) ∧
    after.reports =
      (primaryEntries block).map fun place => partitionAt block place.1 place.2 := by
  unfold readPartitionTable
  by_cases inside : 0 < block.size
  · have notPast : ¬block.size ≤ (0 : Word).toNat := by
      change ¬block.size ≤ 0
      omega
    rw [if_neg notPast, if_pos inside]
    dsimp only
    rw [bind_of_ok (blockRead_zero inside _)]
    change ∃ after, readEntries block _ 0 0 (tableAt block 0) ⟨0, [.read 0]⟩ = .ok ((), after) ∧ _
    rw [readEntries]
    by_cases valid : (tableAt block 0).signature = 0xaa55
    · rw [if_neg (not_not.mpr valid), primaryEntries, if_pos ⟨inside, valid⟩]
      rcases readEntries_reporting (List.range 4)
        (fun index isIndex => flat valid index (List.mem_range.mp isIndex)) ⟨0, [.read 0]⟩ with
        ⟨after, ran, readsNothing, reports⟩
      refine ⟨after, ran, readsNothing, ?_⟩
      rw [reports, List.map_map]
      rfl
    have noEntries : primaryEntries block = [] := if_neg fun both => valid both.2
    rw [noEntries, if_pos valid]
    exact ⟨_, rfl, rfl, rfl⟩
  have past : block.size ≤ (0 : Word).toNat := by omega
  rw [if_pos past, if_neg inside, primaryEntries, if_neg fun both => inside both.1]
  exact ⟨_, rfl, rfl, rfl⟩

lemma scansRight_of_flat (flat : Flat block) : ScansRight block := by
  refine ⟨1, ?_⟩
  intro room enough
  obtain ⟨less, rfl⟩ : ∃ less, room = less + 1 := ⟨room - 1, by omega⟩
  rcases readPartitionTable_of_flat flat less with ⟨middle, ranTable, sectors, reports⟩
  have ends : ∃ after, partitionScan block (less + 1) ⟨0, []⟩ = .ok ((), after) ∧
      Reporting [] middle after := by
    rw [partitionScan, updates_bind_apply]
    rw [bind_of_ok ranTable, reads_bind_apply]
    split
    · exact emit_reporting .noPartitions rfl middle
    · exact ⟨middle, rfl, rfl, (List.append_nil _).symm⟩
  rcases ends with ⟨after, returned, sectorsAfter, reportsAfter⟩
  rw [List.append_nil] at reportsAfter
  refine ⟨after, returned, ?_, ?_, primaryEntries block, nodup_primaryEntries block,
    mem_primaryEntries flat, reportsAfter.trans reports⟩
  · rw [sectorsAfter, sectors]
    split
    · exact List.nodup_singleton 0
    · exact List.nodup_nil
  intro number
  rw [sectorsAfter, sectors]
  constructor
  · intro isRead
    split at isRead
    · next inside =>
        exact ⟨0, (flat.isTable_iff 0).mpr ⟨rfl, inside⟩, List.mem_singleton.mp isRead⟩
    · cases isRead
  rintro ⟨sector, isTable, rfl⟩
  rcases (flat.isTable_iff sector).mp isTable with ⟨rfl, inside⟩
  rw [if_pos inside]
  exact List.mem_singleton_self 0

/-- The scan terminates and finds the right partitions exactly when the table in sector 0 is flat.
-/
theorem scansRight_iff (block : Block) : ScansRight block ↔ Flat block := by
  constructor
  · intro scansRight
    by_contra notFlat
    exact not_scansRight_of_leadsInside ((not_flat_iff block).mp notFlat) scansRight
  · exact scansRight_of_flat

def tableSector (entries : List TableEntry) : Sector := .ofBytes fun index =>
  if index = 510 then 0x55
  else if index = 511 then 0xaa
  else if index < 446 then 0
  else
    match entries[(index - 446) / 16]? with
    | none => 0
    | some entry =>
      let position := (index - 446) % 16
      if position = 4 then entry.type
      else if position < 8 then 0
      else if position < 12 then wordByte entry.offset (position - 8)
      else wordByte entry.size (position - 12)

/-- A device with a kernel partition and an extended partition at sector 20, in which there is a
file system partition. -/
def nestedBlock (size : ℕ) : Block where
  size := size
  sectors sector :=
    if sector = 0 then tableSector [⟨0x20, 1, 10⟩, ⟨0x05, 20, 20⟩]
    else if sector = 20 then tableSector [⟨0x21, 1, 5⟩]
    else .zeros

/-- On forty sectors the kernel partition is reported a second time, twenty sectors further on, in
place of the file system partition. On sixty-four sectors the scan does not return. -/
theorem not_scansRight_nested : ¬ScansRight (nestedBlock 40) ∧
    (partitionScan (nestedBlock 40) 2 ⟨0, []⟩).toOption.map (fun outcome => outcome.2.reports) =
      some [(0x20, 1, 10), (0x20, 21, 10)] ∧
    ∀ room after, partitionScan (nestedBlock 64) room ⟨0, []⟩ ≠ .ok ((), after) := by
  refine ⟨?_, by decide +kernel, ?_⟩
  · exact not_scansRight_of_leadsInside ⟨by decide +kernel, 1, by decide, by decide +kernel,
      by decide +kernel⟩
  intro room
  have valid : (tableAt (nestedBlock 64) 0).signature = 0xaa55 := by decide +kernel
  have extended : ((tableAt (nestedBlock 64) 0).partitions 1).Extended := by decide +kernel
  have first : nextTable 0 0 ((tableAt (nestedBlock 64) 0).partitions 1) = (20, 20) := by
    decide +kernel
  have second : nextTable 20 20 ((tableAt (nestedBlock 64) 0).partitions 1) = (40, 20) := by
    decide +kernel
  have third : nextTable 40 20 ((tableAt (nestedBlock 64) 0).partitions 1) = (40, 20) := by
    decide +kernel
  have stuckThird : Stuck (nestedBlock 64) (40, 20) :=
    stuck_of_self (by decide) valid (by decide) extended third
  have stuckSecond : Stuck (nestedBlock 64) (20, 20) :=
    stuck_of_next (by decide) valid (by decide) extended (by rwa [second])
  have stuckFirst : Stuck (nestedBlock 64) (0, 0) :=
    stuck_of_next (by decide) valid (by decide) extended (by rwa [first])
  exact not_returns_of_stuck stuckFirst room _

end Pintos.Partition
