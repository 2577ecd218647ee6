import Pintos.Filesys.Counts
import Pintos.Filesys.FileBytes
import Pintos.Userprog.AddressSpaces
import Pintos.Userprog.Loading

/-!
# Loading executables is safe

Whatever the executable contains and whatever the page allocator answers: the arithmetic on
segment sizes does not wrap around, `load_segment` and `file_seek` are called with arguments
that pass their assertions, only user pages above the first one are mapped, and a segment that
has been loaded is in the memory of the process.
-/

namespace Pintos

open Function

namespace Loader

open Pintos.Computation Observed Palloc Paging

def userByte (memory : Memory) (pd va : Word) : Option Byte :=
  (frameOf (memory.pte pd va)).map fun page => memory.bytes page (pgOfs va).toNat

/-- The memory from `upage` on holds the bytes of the executable from `ofs` on, followed by
zeros. -/
def SegmentLoaded (pd : Word) (state : Loading) (ofs : ℤ)
    (upage readBytes zeroBytes : Word) : Prop :=
  ∃ inode, state.fs.inodes state.file.inode = some inode ∧
    ∀ index, index < readBytes.toNat + zeroBytes.toNat →
      ∃ byte, userByte state.memory pd (upage + BitVec.ofNat 32 index) = some byte ∧
        (index < readBytes.toNat → state.fs.ByteAt inode (ofs.toNat + index) byte) ∧
        (readBytes.toNat ≤ index → byte = 0)

def Event.Safe : Event → Prop
  | .seek ofs => 0 ≤ ofs
  | .add left right => left.toNat + right.toNat < 2 ^ 32
  | .sub left right => right ≤ left
  | .segment ofs upage readBytes zeroBytes =>
    (readBytes + zeroBytes) % pgSize = 0 ∧ pgOfs upage = 0 ∧ ofs.tmod 4096 = 0
  | .returned success pd state ofs upage readBytes zeroBytes =>
    success = true → SegmentLoaded pd state ofs upage readBytes zeroBytes
  | .setPage upage _ => pgOfs upage = 0 ∧ pgSize ≤ upage ∧ upage < physBase
  | .endless => False
  | .index _ | .copy _ _ | .store _ => True

variable {state : Loading} {val pd upage : Word} {ino : Inode}

section Arithmetic

variable {left right : Word} {post : Word → Loading → Prop}

lemma addWord_ensures (fits : left.toNat + right.toNat < 2 ^ 32)
  (holds : ∀ sum : Word, sum.toNat = left.toNat + right.toNat → post sum state) :
  Ensures Event.Safe (addWord left right) state post := by
  refine .bind (.emit fits (.pure (holds _ ?_)))
  rw [BitVec.toNat_add, Nat.mod_eq_of_lt fits]

lemma subWord_ensures (fits : right.toNat ≤ left.toNat)
  (holds : ∀ difference : Word, difference.toNat = left.toNat - right.toNat →
    post difference state) : Ensures Event.Safe (subWord left right) state post := by
  refine .bind (.emit (show right ≤ left from fits) (.pure (holds _ ?_)))
  exact BitVec.toNat_sub_of_le (show right ≤ left from fits)

lemma roundUp_ensures (fits : val.toNat + 4096 < 2 ^ 32)
  (holds : ∀ rounded : Word, rounded.toNat = (val.toNat + 4095) / 4096 * 4096 →
    post rounded state) : Ensures Event.Safe (roundUp val) state post := by
  refine .bind (addWord_ensures fits fun above isAbove => ?_)
  have isAbove : above.toNat = val.toNat + 4096 := isAbove
  refine .bind (subWord_ensures ?_ fun last isLast => .pure (holds _ ?_))
  · change 1 ≤ above.toNat
    omega
  have isLast : last.toNat = above.toNat - 1 := isLast
  change last.toNat / 4096 * 4096 % 2 ^ 32 = _
  omega

lemma toNat_pageStart (val : Word) : (val &&& ~~~0xfff).toNat = val.toNat / 4096 * 4096 := by
  have rest : (val &&& 0xfff).toNat = val.toNat % 4096 := pgOfs_toNat val
  rw [toNat_andNot]
  omega

end Arithmetic

def Backed (memory : Memory) (pd : Word) : Prop :=
  ∀ va page, va < physBase → frameOf (memory.pte pd va) = some page → memory.inUse page = true

structure Ready (pd : Word) (inode : Inode) (state : Loading) : Prop where
  directory : Directory state.memory pd
  backed : Backed state.memory pd
  isOpen : state.fs.inodes state.file.inode = some inode

variable {pos : ℕ} {writable : Bool} {readBytes zeroBytes : Word} {phdr : Phdr}

section Primitives

variable {post : Unit → Loading → Prop}

lemma assert_ensures {condition : Prop} [Decidable condition] (holds : post () state) :
  Ensures Event.Safe (assert condition) state post := by
  unfold assert
  split
  · exact .pure holds
  · exact .stop _

lemma seek_ensures {ofs : ℤ} (nonneg : 0 ≤ ofs)
  (holds : post () { state with file := { state.file with pos := ofs } }) :
  Ensures Event.Safe (seek ofs) state post := by
  refine .bind (.emit nonneg (.bind (.reads (.bind (.onPart ?_)))))
  intro file fs ran
  rw [fileSeek, if_pos nonneg] at ran
  cases ran
  exact .updates holds

lemma length_ensures (ready : Ready pd ino state) {post : ℤ → Loading → Prop}
  (holds : post ino.data.size state) : Ensures Event.Safe length state post := by
  refine .bind (.reads (.onPart ?_))
  intro val fs returned
  rw [fileLength, bind_of_ok (derefInode_of_some ready.isOpen)] at returned
  cases returned
  exact holds

lemma read_ensures (ready : Ready pd ino state) {size : ℕ} (atPos : state.file.pos = pos)
  {buf : ℕ → Byte} {post : ℤ × (ℕ → Byte) → Loading → Prop}
  (holds : ∀ cnt filled after, after.memory = state.memory → Ready pd ino after →
    state.fs.SameFiles after.fs →
    (cnt = (size : ℤ) → Delivers state.fs ino size pos 0 buf filled ∧
      after.file.pos = (pos + size : ℕ)) → post (cnt, filled) after) :
  Ensures Event.Safe (read buf size) state post := by
  refine .bind (.reads (.bind (.onPart ?_)))
  rintro ⟨moved, cnt, filled⟩ fs ran
  have same := fileRead_sameFiles _ _ _ ran
  have sameIno : moved.inode = state.file.inode := by
    rcases bind_eq_ok ran with ⟨_, _, _, rest⟩
    cases rest
    rfl
  refine .bind (.updates (.pure (holds cnt filled _ rfl ?_ same ?_)))
  · refine ⟨ready.directory, ready.backed, ?_⟩
    rw [same.2, sameIno]
    exact ready.isOpen
  rintro rfl
  exact fileRead_delivers ready.isOpen atPos ran

end Primitives

def Extends (pd : Word) (before after : Memory) : Prop :=
  ∀ va page, va < physBase → frameOf (before.pte pd va) = some page →
    frameOf (after.pte pd va) = some page ∧ after.bytes page = before.bytes page

lemma Extends.trans {first second third : Memory} (toSecond : Extends pd first second)
  (toThird : Extends pd second third) : Extends pd first third := by
  intro va page isUser isFrame
  rcases toSecond va page isUser isFrame with ⟨isSecond, sameSecond⟩
  rcases toThird va page isUser isSecond with ⟨isThird, sameThird⟩
  exact ⟨isThird, sameThird.trans sameSecond⟩

lemma Extends.userByte_eq {va : Word} {pre after : Memory} {byte : Byte}
  (extended : Extends pd pre after) (isUser : va < physBase)
  (isByte : userByte pre pd va = some byte) : userByte after pd va = some byte := by
  rcases Option.map_eq_some_iff.mp isByte with ⟨page, isFrame, rfl⟩
  rcases extended va page isUser isFrame with ⟨isFrameAfter, sameBytes⟩
  rw [userByte, isFrameAfter, Option.map_some, sameBytes]

lemma installPage_ensures {kpage : Word} {post : Bool → Loading → Prop}
  (dir : Directory state.memory pd) (backed : Backed state.memory pd) (aligned : pgOfs upage = 0)
  (above : pgSize ≤ upage) (isUser : upage < physBase) (isPage : state.memory.IsPage kpage)
  (used : state.memory.inUse kpage = true) (failed : ∀ after, post false after)
  (installed : ∀ mem, Directory mem pd → Backed mem pd → state.memory.Grows mem →
    frameOf (state.memory.pte pd upage) = none →
    (∀ other, mem.pte pd other =
      if pgNo other = pgNo upage then pteOf kpage writable else state.memory.pte pd other) →
    post true { state with memory := mem }) :
  Ensures Event.Safe (installPage pd upage kpage writable) state post := by
  refine .bind (.onPart ?_)
  intro present mem ran
  rw [dir.pagedirGetPage_eq isUser] at ran
  cases isFrame : frameOf (state.memory.pte pd upage) with
  | some page =>
    rw [isFrame] at ran
    cases ran
    exact .pure (failed _)
  | none =>
    rw [isFrame] at ran
    cases ran
    refine .bind (.emit ⟨aligned, above, isUser⟩ (.onPart ?_))
    intro success mem ran
    rcases dir.pagedirSetPage_eq aligned isUser isPage isFrame writable with
      ⟨res, after, done, dirAfter, grows, _, pte_eq⟩
    have sameOut := ran.symm.trans done
    cases sameOut
    cases success with
    | false => exact failed _
    | true =>
      have isMapped : ∀ other, mem.pte pd other =
          if pgNo other = pgNo upage then pteOf kpage writable
          else state.memory.pte pd other := by simpa using pte_eq
      refine installed mem dirAfter ?_ grows isFrame isMapped
      intro va page vaUser isFrameAfter
      rw [isMapped] at isFrameAfter
      split at isFrameAfter
      · rw [frameOf_pteOf isPage] at isFrameAfter
        cases isFrameAfter
        exact grows.inUse _ used
      · exact grows.inUse _ (backed va page vaUser isFrameAfter)

structure Loaded (pd : Word) (inode : Inode) (before after : Loading) (pos : ℕ)
    (upage readBytes zeroBytes : Word) : Prop where
  ready : Ready pd inode after
  same : before.fs.SameFiles after.fs
  extended : Extends pd before.memory after.memory
  bytes : ∀ index, index < readBytes.toNat + zeroBytes.toNat →
    ∃ byte, userByte after.memory pd (upage + BitVec.ofNat 32 index) = some byte ∧
      (index < readBytes.toNat → before.fs.ByteAt inode (pos + index) byte) ∧
      (readBytes.toNat ≤ index → byte = 0)

section Range

variable {idx : ℕ}

lemma toNat_add_index (fits : upage.toNat + idx < 2 ^ 32) :
  (upage + BitVec.ofNat 32 idx).toNat = upage.toNat + idx := by
  rw [BitVec.toNat_add, BitVec.toNat_ofNat]
  omega

lemma toNat_add_pgSize (fits : upage.toNat + 4096 < 2 ^ 32) :
  (upage + pgSize).toNat = upage.toNat + 4096 := toNat_add_index fits

lemma toNat_mod_of_aligned (aligned : pgOfs upage = 0) : upage.toNat % 4096 = 0 := by
  rw [← pgOfs_toNat, aligned]
  rfl

lemma page_add_index (aligned : pgOfs upage = 0) (fits : upage.toNat + 4096 < 2 ^ 32)
  (inPage : idx < 4096) : pgNo (upage + BitVec.ofNat 32 idx) = pgNo upage ∧
    (pgOfs (upage + BitVec.ofNat 32 idx)).toNat = idx := by
  have rest := toNat_mod_of_aligned aligned
  constructor
  · apply BitVec.eq_of_toNat_eq
    rw [pgNo_toNat, pgNo_toNat, toNat_add_index (by omega)]
    omega
  rw [pgOfs_toNat, toNat_add_index (by omega)]
  omega

lemma aligned_add_pgSize (aligned : pgOfs upage = 0) (fits : upage.toNat + 4096 < 2 ^ 32) :
  pgOfs (upage + pgSize) = 0 := by
  have rest := toNat_mod_of_aligned aligned
  apply BitVec.eq_of_toNat_eq
  rw [pgOfs_toNat, toNat_add_pgSize fits]
  change (upage.toNat + 4096) % 4096 = 0
  omega

end Range

lemma Loaded.nothing (ready : Ready pd ino state) (pos : ℕ)
  (isEmpty : readBytes.toNat + zeroBytes.toNat = 0) :
  Loaded pd ino state state pos upage readBytes zeroBytes :=
  ⟨ready, Std.Refl.refl _, fun _ _ _ isFrame => ⟨isFrame, rfl⟩, by omega⟩

lemma Loaded.append {pd : Word} {ino : Inode} {pre mid after : Loading} {pos : ℕ}
  {upage readBytes zeroBytes pageRead pageZero restRead restZero : Word}
  (first : Loaded pd ino pre mid pos upage pageRead pageZero)
  (rest : Loaded pd ino mid after (pos + pageRead.toNat) (upage + pgSize) restRead restZero)
  (onePage : pageRead.toNat + pageZero.toNat = 4096)
  (isRead : readBytes.toNat = pageRead.toNat + restRead.toNat)
  (isZero : zeroBytes.toNat = pageZero.toNat + restZero.toNat)
  (readFirst : pageRead.toNat < 4096 → restRead.toNat = 0)
  (inUser : upage.toNat + (readBytes.toNat + zeroBytes.toNat) ≤ 0xc0000000) :
  Loaded pd ino pre after pos upage readBytes zeroBytes := by
  refine ⟨rest.ready, IsTrans.trans _ _ _ first.same rest.same,
    first.extended.trans rest.extended, ?_⟩
  intro idx idxLt
  by_cases inFirst : idx < 4096
  · rcases first.bytes idx (by omega) with ⟨byte, isByte, fromFile, isZeroByte⟩
    have isUser : upage + BitVec.ofNat 32 idx < physBase := by
      change (upage + BitVec.ofNat 32 idx).toNat < 0xc0000000
      rw [toNat_add_index (by omega)]
      omega
    refine ⟨byte, rest.extended.userByte_eq isUser isByte, ?_, ?_⟩
    · intro inRead
      exact fromFile (by omega)
    intro pastRead
    exact isZeroByte (by omega)
  rcases rest.bytes (idx - 4096) (by omega) with ⟨byte, isByte, fromFile, isZeroByte⟩
  have addr : upage + pgSize + BitVec.ofNat 32 (idx - 4096) = upage + BitVec.ofNat 32 idx := by
    have isNext := toNat_add_pgSize (show upage.toNat + 4096 < 2 ^ 32 by omega)
    have isWhole := toNat_add_index (show upage.toNat + idx < 2 ^ 32 by omega)
    apply BitVec.eq_of_toNat_eq
    rw [toNat_add_index (by omega), isNext]
    omega
  rw [addr] at isByte
  refine ⟨byte, isByte, ?_, ?_⟩
  · intro inRead
    have posn : pos + pageRead.toNat + (idx - 4096) = pos + idx := by omega
    have isFile := fromFile (by omega)
    rw [posn] at isFile
    exact isFile.congr ⟨first.same.1.symm, first.same.2.symm⟩
  intro pastRead
  exact isZeroByte (by omega)

lemma Loaded.page {pre after : Loading} {kpage pageRead pageZero : Word} {filled : ℕ → Byte}
  {mem : Memory} (grows : mem.Grows after.memory) (isReady : Ready pd ino after)
  (same : pre.fs.SameFiles after.fs) (backed : Backed pre.memory pd)
  (isFree : pre.memory.inUse kpage = false) (isPage : pre.memory.IsPage kpage)
  (aligned : pgOfs upage = 0) (inUser : upage.toNat + 4096 ≤ 0xc0000000)
  (onePage : pageRead.toNat + pageZero.toNat = 4096)
  (delivers : Delivers pre.fs ino pageRead.toNat pos 0 (pre.memory.bytes kpage) filled)
  (sameTables : ∀ other, mem.pte pd other = pre.memory.pte pd other)
  (sameUsed : ∀ page, pre.memory.inUse page = true → mem.inUse page = true)
  (used : mem.inUse kpage = true)
  (sameBytes : ∀ page, page ≠ kpage → mem.bytes page = pre.memory.bytes page)
  (isFilled : mem.bytes kpage = overlay filled pageRead.toNat pageZero.toNat fun _ => 0)
  (unmapped : frameOf (mem.pte pd upage) = none) (isMapped : ∀ other, after.memory.pte pd other =
    if pgNo other = pgNo upage then pteOf kpage writable else mem.pte pd other) :
  Loaded pd ino pre after pos upage pageRead pageZero := by
  refine ⟨isReady, same, ?_, ?_⟩
  · intro va page vaUser isFrame
    have isUsed := backed va page vaUser isFrame
    have notNew : page ≠ kpage := by
      rintro rfl
      rw [isFree] at isUsed
      cases isUsed
    have otherPage : pgNo va ≠ pgNo upage := by
      intro samePage
      rw [Directory.pte_congr mem pd samePage.symm, sameTables, isFrame] at unmapped
      cases unmapped
    rw [isMapped, if_neg otherPage, sameTables]
    exact ⟨isFrame, (grows.bytes_eq page (sameUsed page isUsed)).trans (sameBytes page notNew)⟩
  intro idx idxLt
  rcases page_add_index aligned (by omega) (show idx < 4096 by omega) with ⟨num, offset⟩
  refine ⟨overlay filled pageRead.toNat pageZero.toNat (fun _ => 0) idx, ?_, ?_, ?_⟩
  · rw [userByte, isMapped, if_pos num, frameOf_pteOf isPage, Option.map_some, offset,
      grows.bytes_eq kpage used, isFilled]
  · intro inRead
    rw [overlay_outside (by omega)]
    have isByte := delivers.bytes idx inRead
    rwa [Nat.zero_add] at isByte
  intro pastRead
  rw [overlay_inside (by omega) (by omega)]

lemma toInt_of_le (small : val.toNat ≤ 4096) : val.toInt = (val.toNat : ℤ) :=
  BitVec.toInt_eq_toNat_of_lt (by omega)

lemma toNat_pageRead (readBytes : Word) :
  (pageRead readBytes).toNat = min readBytes.toNat 4096 := by
  unfold pageRead
  split
  · next small =>
      have isSmall : readBytes.toNat < 4096 := small
      omega
  next large =>
    have isLarge : ¬readBytes.toNat < 4096 := large
    change 4096 = _
    omega

lemma toNat_pageZero (readBytes : Word) :
  (pageZero readBytes).toNat = 4096 - min readBytes.toNat 4096 := by
  have isRead := toNat_pageRead readBytes
  have isLe : pageRead readBytes ≤ pgSize := by
    change (pageRead readBytes).toNat ≤ 4096
    omega
  rw [pageZero, BitVec.toNat_sub_of_le isLe, isRead]
  rfl

lemma loadPage_ensures {pd : Word} {ino : Inode} {state : Loading} {pos : ℕ}
  {upage readBytes zeroBytes : Word} (writable : Bool) (ready : Ready pd ino state)
  (atPos : state.file.pos = pos) (onePage : readBytes.toNat + zeroBytes.toNat = 4096)
  (aligned : pgOfs upage = 0) (above : 4096 ≤ upage.toNat)
  (inUser : upage.toNat + 4096 ≤ 0xc0000000) :
  Ensures Event.Safe (loadPage pd upage readBytes zeroBytes writable) state
    fun success after => success = true →
      Loaded pd ino state after pos upage readBytes zeroBytes ∧
        after.file.pos = (pos + readBytes.toNat : ℕ) := by
  have isInt := toInt_of_le (show readBytes.toNat ≤ 4096 by omega)
  refine .bind (.onPart ?_)
  intro kpage alloc ran
  cases kpage with
  | none => exact .pure (by simp)
  | some kpage =>
    rcases pallocGetPage_eq_some ran with
      ⟨⟨_, isPage, isFree⟩, grows, used, otherTables, allBytes⟩
    have notNew : ∀ page, state.memory.inUse page = true → page ≠ kpage := by
      rintro page isUsed rfl
      rw [isFree] at isUsed
      cases isUsed
    rcases ready.directory.of_used grows (fun page isUsed => otherTables page (notNew page isUsed))
      with ⟨dir, pte_eq⟩
    have backed : Backed alloc pd := by
      intro va page isUser isFrame
      rw [pte_eq] at isFrame
      exact grows.inUse page (ready.backed va page isUser isFrame)
    have readyAlloc : Ready pd ino { state with memory := alloc } :=
      ⟨dir, backed, ready.isOpen⟩
    simp only [isInt]
    refine .bind (.reads (.bind (read_ensures readyAlloc (by exact atPos) ?_)))
    intro cnt filled after sameMem readyAfter same delivered
    refine .bind (.updates ?_)
    by_cases complete : cnt = (readBytes.toNat : ℤ)
    · rw [if_neg (not_not.mpr complete)]
      rcases delivered complete with ⟨delivers, atEnd⟩
      rcases after with ⟨fs, mem, file⟩
      obtain rfl : mem = alloc := sameMem
      have isUser : upage < physBase := by
        change upage.toNat < 0xc0000000
        omega
      refine .bind (.updates (.bind (installPage_ensures (by exact dir.of_bytes _)
        (by exact backed) aligned above isUser ((grows.isPage_iff kpage).mpr isPage)
        (by exact used) ?_ ?_)))
      · intro failed
        exact .bind (.onPart fun _ _ _ => .pure (by simp))
      intro mapped dirMapped backedMapped growsMapped unmapped isMapped
      have fromSt : Delivers state.fs ino readBytes.toNat pos 0 (state.memory.bytes kpage)
          filled := by
        rw [← allBytes rfl]
        exact delivers
      refine .pure fun _ => ⟨?_, atEnd⟩
      refine Loaded.page growsMapped
        ⟨dirMapped, backedMapped, readyAfter.isOpen⟩ same ready.backed isFree
        isPage aligned inUser onePage fromSt pte_eq grows.inUse used ?_ ?_ unmapped isMapped
      · intro page ne
        change update (update mem.bytes kpage filled) kpage _ page = _
        rw [update_of_ne ne, update_of_ne ne, allBytes rfl]
      · exact update_self _ _ _
    rw [if_pos complete]
    exact .bind (.onPart fun _ _ _ => .pure (by simp))

lemma loadPages_ensures {pages : ℕ} (writable : Bool) (ready : Ready pd ino state)
  (atPos : state.file.pos = pos) (total : readBytes.toNat + zeroBytes.toNat = pages * 4096)
  (aligned : pgOfs upage = 0) (above : 4096 ≤ upage.toNat)
  (inUser : upage.toNat + pages * 4096 ≤ 0xc0000000) :
  Ensures Event.Safe (loadPages pd pages upage readBytes zeroBytes writable) state
    fun success after => success = true →
      Loaded pd ino state after pos upage readBytes zeroBytes := by
  induction pages generalizing state pos upage readBytes zeroBytes with
  | zero =>
    have noBytes : ¬(readBytes > 0 ∨ zeroBytes > 0) := by
      change ¬(0 < readBytes.toNat ∨ 0 < zeroBytes.toNat)
      omega
    unfold loadPages
    rw [if_neg noBytes]
    exact .pure fun _ => .nothing ready pos (by omega)
  | succ pages ih =>
    have isRead := toNat_pageRead readBytes
    have isZero := toNat_pageZero readBytes
    have isNext := toNat_add_pgSize (show upage.toNat + 4096 < 2 ^ 32 by omega)
    unfold loadPages
    split
    · refine .bind ((loadPage_ensures writable ready atPos (by omega) aligned above
        (by omega)).mono ?_)
      intro loaded mid whenLoaded
      cases loaded with
      | false => exact .pure (by simp)
      | true =>
        rcases whenLoaded rfl with ⟨first, atNext⟩
        refine .bind (subWord_ensures (by omega) fun restRead isRestRead => ?_)
        refine .bind (subWord_ensures (by omega) fun restZero isRestZero => ?_)
        refine (ih first.ready atNext (by omega)
          (aligned_add_pgSize aligned (by omega)) (by omega) (by omega)).mono ?_
        intro success after whenRest isSuccess
        exact first.append (whenRest isSuccess) (by omega) (by omega) (by omega) (by omega)
          (by omega)
    next noBytes =>
      refine .pure fun _ => .nothing ready pos ?_
      change ¬(0 < readBytes.toNat ∨ 0 < zeroBytes.toNat) at noBytes
      omega

lemma loadSegment_ensures {pd : Word} {ino : Inode} {state : Loading} {pos pages : ℕ}
  {upage readBytes zeroBytes : Word} (writable : Bool) (ready : Ready pd ino state)
  (onPage : pos % 4096 = 0) (total : readBytes.toNat + zeroBytes.toNat = pages * 4096)
  (aligned : pgOfs upage = 0) (above : 4096 ≤ upage.toNat)
  (inUser : upage.toNat + pages * 4096 ≤ 0xc0000000) :
  Ensures Event.Safe (callLoadSegment pd pos upage readBytes zeroBytes writable) state
    fun success after => success = true → Ready pd ino after := by
  have remainder : (pos : ℤ).tmod 4096 = 0 := by
    rw [show ((4096 : ℤ)) = ((4096 : ℕ) : ℤ) from rfl, ← Int.ofNat_tmod, onPage]
    rfl
  have whole : ∀ sum : Word, sum.toNat = readBytes.toNat + zeroBytes.toNat → sum % pgSize = 0 := by
    intro sum isSum
    apply BitVec.eq_of_toNat_eq
    rw [BitVec.toNat_umod, isSum, total]
    change pages * 4096 % 4096 = 0
    omega
  have isSum : (readBytes + zeroBytes).toNat = readBytes.toNat + zeroBytes.toNat := by
    rw [BitVec.toNat_add]
    omega
  refine .bind (.emit ⟨whole _ isSum, aligned, remainder⟩ (.bind ?_))
  refine .bind (addWord_ensures (by omega) fun sum sum_eq => ?_)
  have isPages : sum.toNat / 4096 = pages := by omega
  rw [isPages]
  refine .bind (assert_ensures (.bind (assert_ensures (.bind (assert_ensures ?_)))))
  refine .bind (seek_ensures (by omega) ?_)
  have readySought : Ready pd ino { state with file := { state.file with pos := (pos : ℤ) } } :=
    ⟨ready.directory, ready.backed, ready.isOpen⟩
  refine (loadPages_ensures writable readySought rfl total aligned above inUser).mono ?_
  intro success after whenLoaded
  refine .bind (.reads (.bind (.emit ?_ (.pure fun isTrue => (whenLoaded isTrue).ready))))
  intro isTrue
  have loaded := whenLoaded isTrue
  refine ⟨ino, loaded.ready.isOpen, ?_⟩
  intro idx idxLt
  rcases loaded.bytes idx idxLt with ⟨byte, isByte, fromFile, isZero⟩
  refine ⟨byte, isByte, fun inRead => ?_, isZero⟩
  exact (fromFile inRead).congr loaded.same

structure Validated (phdr : Phdr) : Prop where
  offset_lt : phdr.offset.toNat < 2 ^ 31
  filesz_le : phdr.filesz.toNat ≤ phdr.memsz.toNat
  end_lt : phdr.vaddr.toNat + phdr.memsz.toNat < 0xc0000000
  vaddr_ge : 4096 ≤ phdr.vaddr.toNat

lemma Validated.of_validSegment {disk : InodeDisk} (nonneg : 0 ≤ disk.size)
  (valid : validSegment phdr disk.size = true) : Validated phdr := by
  rcases of_decide_eq_true valid with
    ⟨_, inFile, filesz_le, notEmpty, isUser, endUser, noWrap, vaddr_ge⟩
  have inFile : phdr.offset.toNat ≤ disk.length.toNat := by
    rw [InodeDisk.size, BitVec.ofInt_toInt] at inFile
    exact inFile
  have endUser : (phdr.vaddr + phdr.memsz).toNat < 0xc0000000 := endUser
  have noWrap : phdr.vaddr.toNat ≤ (phdr.vaddr + phdr.memsz).toNat := noWrap
  rw [BitVec.toNat_add] at endUser noWrap
  refine ⟨?_, filesz_le, by omega, vaddr_ge⟩
  have small : 2 * disk.length.toNat < 2 ^ 32 := by
    by_contra large
    rw [InodeDisk.size, BitVec.toInt_eq_toNat_cond] at nonneg
    omega
  omega

lemma loadHeader_ensures (ready : Ready pd ino state) (nonneg : 0 ≤ ino.data.size) :
  Ensures Event.Safe (loadHeader pd phdr) state
    fun success after => success = true → Ready pd ino after := by
  refine .bind (.bind (length_ensures ready (.pure ?_)))
  split
  swap
  · exact .pure (by simp)
  next valid =>
  have validated := Validated.of_validSegment nonneg valid
  have pageOfs : (phdr.vaddr &&& 0xfff).toNat = phdr.vaddr.toNat % 4096 := pgOfs_toNat _
  have memPage := toNat_pageStart phdr.vaddr
  have filePage := toNat_pageStart phdr.offset
  have end_lt := validated.end_lt
  have offset_lt := validated.offset_lt
  have filesz_le := validated.filesz_le
  have vaddr_ge := validated.vaddr_ge
  have aligned : pgOfs (phdr.vaddr &&& ~~~0xfff) = 0 := by
    apply BitVec.eq_of_toNat_eq
    rw [pgOfs_toNat, memPage]
    change phdr.vaddr.toNat / 4096 * 4096 % 4096 = 0
    omega
  have offset : (phdr.offset &&& ~~~0xfff).toInt = ((phdr.offset &&& ~~~0xfff).toNat : ℤ) :=
    BitVec.toInt_eq_toNat_of_lt (by omega)
  simp only [offset]
  split
  · refine .bind (addWord_ensures (by omega) fun readBytes isRead => ?_)
    refine .bind (addWord_ensures (by omega) fun memBytes isMem => ?_)
    refine .bind (roundUp_ensures (by omega) fun allBytes isAll => ?_)
    refine .bind (subWord_ensures (by omega) fun zeroBytes isZero => ?_)
    exact loadSegment_ensures _ ready (by omega)
      (show readBytes.toNat + zeroBytes.toNat = (memBytes.toNat + 4095) / 4096 * 4096 by omega)
      aligned (by omega) (by omega)
  refine .bind (addWord_ensures (by omega) fun memBytes isMem => ?_)
  refine .bind (roundUp_ensures (by omega) fun zeroBytes isZero => ?_)
  have noRead : (0 : Word).toNat = 0 := rfl
  exact loadSegment_ensures _ ready (by omega)
    (show (0 : Word).toNat + zeroBytes.toNat = (memBytes.toNat + 4095) / 4096 * 4096 by omega)
    aligned (by omega) (by omega)

lemma loadByType_ensures (ready : Ready pd ino state) (nonneg : 0 ≤ ino.data.size) :
  Ensures Event.Safe (loadByType pd phdr) state
    fun success after => success = true → Ready pd ino after := by
  unfold loadByType
  split
  · exact .pure (by simp)
  split
  · exact loadHeader_ensures ready nonneg
  · exact .pure fun _ => ready

lemma loadHeaders_ensures {pd : Word} {ino : Inode} {headers : ℕ} {state : Loading} {fileOfs : ℤ}
  (ready : Ready pd ino state) (nonneg : 0 ≤ ino.data.size) :
  Ensures Event.Safe (loadHeaders pd headers fileOfs) state
    fun success after => success = true → Ready pd ino after := by
  induction headers generalizing state fileOfs with
  | zero => exact .pure fun _ => ready
  | succ headers ih =>
    refine .bind (length_ensures ready ?_)
    split
    · exact .pure (by simp)
    next inside =>
      refine .bind (seek_ensures (by omega) ?_)
      have readySought : Ready pd ino { state with file := { state.file with pos := fileOfs } } :=
        ⟨ready.directory, ready.backed, ready.isOpen⟩
      have atPos : fileOfs = (fileOfs.toNat : ℤ) := by omega
      refine .bind (read_ensures readySought atPos ?_)
      intro cnt filled after _ readyAfter _ _
      dsimp only
      split
      · exact .pure (by simp)
      refine .bind ((loadByType_ensures readyAfter nonneg).mono ?_)
      intro goesOn later whenLoaded
      cases goesOn with
      | false => exact .pure (by simp)
      | true => exact ih (whenLoaded rfl)

def Harmless {Value : Type} (program : Load Value) : Prop :=
  ∀ state, Ensures Event.Safe program state fun _ _ => True

namespace Harmless

variable {Value Result : Type}

lemma pure (val : Value) : Harmless (pure val : Load Value) := fun _ => .pure trivial

lemma bind {first : Load Value} {next : Value → Load Result} (firstHarmless : Harmless first)
  (nextHarmless : ∀ val, Harmless (next val)) : Harmless (first >>= next) :=
  fun state => .bind ((firstHarmless state).mono fun val after _ => nextHarmless val after)

lemma storeByte (pd addr : Word) (byte : Byte) : Harmless (storeByte pd addr byte) := by
  intro state
  refine .bind (.emit trivial (.bind (.reads ?_)))
  split
  · exact .stop _
  split
  · exact .stop _
  · exact .updates trivial

lemma pushBytes (pd myEsp : Word) (bytes : List Byte) : Harmless (pushBytes pd myEsp bytes) := by
  induction bytes generalizing myEsp with
  | nil => exact pure myEsp
  | cons byte rest ih => exact bind (storeByte _ _ _) fun _ => ih _

lemma pushCharacter (pd myEsp : Word) (byte : Byte) : Harmless (pushCharacter pd myEsp byte) :=
  bind (storeByte _ _ _) fun _ => pure _

lemma pushPointer (pd myEsp ptr : Word) : Harmless (pushPointer pd myEsp ptr) :=
  bind (storeByte _ _ _) fun _ => bind (storeByte _ _ _) fun _ => bind (storeByte _ _ _) fun _ =>
    bind (storeByte _ _ _) fun _ => pure _

lemma useIndex (cnt : ℕ) : Harmless (useIndex cnt) := by
  intro state
  refine .bind (.emit trivial ?_)
  split
  · exact .pure trivial
  · exact .stop _

lemma copyLine (room : ℕ) (line : List Byte) : Harmless (copyLine room line) := by
  intro state
  refine .bind (.emit trivial ?_)
  split
  · exact .pure trivial
  · exact .stop _

lemma collectArgs (cnt : ℕ) (tokens : List (List Byte)) : Harmless (collectArgs cnt tokens) := by
  induction tokens generalizing cnt with
  | nil => exact pure ()
  | cons token rest ih =>
    exact bind (useIndex cnt) fun _ => bind (fun _ => assert_ensures trivial) fun _ => ih _

lemma pushArgs (pd myEsp : Word) (tokens : List (List Byte)) :
  Harmless (pushArgs pd myEsp tokens) := by
  induction tokens generalizing myEsp with
  | nil => exact pure _
  | cons token rest ih =>
    exact bind (useIndex _) fun _ => bind (pushBytes _ _ _) fun _ => bind (useIndex _) fun _ =>
      bind (ih _) fun _ => pure _

lemma pushPointers (pd myEsp : Word) (addrs : List Word) :
  Harmless (pushPointers pd myEsp addrs) := by
  induction addrs generalizing myEsp with
  | nil => exact pure _
  | cons addr rest ih =>
    exact bind (useIndex _) fun _ => bind (pushPointer _ _ _) fun _ => ih _

lemma pushLine (pd : Word) (tokens : List (List Byte)) (ret myEsp : Word) :
  Harmless (pushLine pd tokens ret myEsp) :=
  bind (pushArgs _ _ _) fun _ => bind (pushBytes _ _ _) fun _ => bind (pushCharacter _ _ _) fun _ =>
    bind (pushPointers _ _ _) fun _ => bind (pushPointer _ _ _) fun _ =>
      bind (pushCharacter _ _ _) fun _ => pushCharacter _ _ _

lemma stackPage (pd esp : Word) : Harmless (stackPage pd esp) := by
  intro state
  refine .bind (.onPart ?_)
  intro kpage mem _
  cases kpage with
  | none => exact .pure trivial
  | some kpage =>
    refine .bind (.bind (.onPart ?_))
    intro present mem _
    have goesOn : ∀ (success : Bool) (state : Loading), Ensures Event.Safe
        (if success = true then Pure.pure (true, physBase)
        else do
          onMemory (pallocFreePage kpage)
          Pure.pure (false, esp)) state fun _ _ => True := by
      intro success state
      cases success with
      | true => exact .pure trivial
      | false => exact .bind (.onPart fun _ _ _ => .pure trivial)
    cases present with
    | some page => exact .pure (goesOn false _)
    | none =>
      refine .bind (.emit ⟨by decide, by decide, by decide⟩ (.onPart ?_))
      intro success mem _
      exact goesOn success _

lemma setupStack (room : ℕ) (pd esp : Word) (line : List Byte) (ret : Word) :
  Harmless (setupStack room pd esp line ret) :=
  bind (stackPage _ _) fun _ => bind (copyLine _ _) fun _ => bind (collectArgs _ _) fun _ =>
    bind (pushLine _ _ _ _) fun _ => pure _

end Harmless

lemma fileDenyWrite_pos {file denied : File} {fs after : Fs}
  (ran : fileDenyWrite file fs = .ok (denied, after)) : denied.pos = file.pos := by
  unfold fileDenyWrite at ran
  split at ran
  · cases ran
    rfl
  rcases bind_eq_ok ran with ⟨_, _, _, rest⟩
  cases rest
  rfl

lemma loadFile_ensures {room : ℕ} {pd : Word} {state : Loading} (dir : Directory state.memory pd)
  (backed : Backed state.memory pd) (atStart : state.file.pos = 0) (esp : Word) (line : List Byte)
  (ret : Word) : Ensures Event.Safe (loadFile room pd esp line ret) state fun _ _ => True := by
  cases isOpen : state.fs.inodes state.file.inode with
  | none =>
    refine .bind (.bind (.reads (.bind (.onPart ?_))))
    intro res fs ran
    rcases bind_eq_ok ran with ⟨out, mid, reads, _⟩
    have missing : derefInode state.file.inode state.fs = .error .fault := by
      rw [derefInode, isOpen]
    have faults : inodeReadAt state.file.inode (fun _ => 0) Files.ehdrSize state.file.pos state.fs =
        .error .fault := by
      exact bind_of_error missing
    have ranBoth := faults.symm.trans reads
    cases ranBoth
  | some ino =>
    have ready : Ready pd ino state := ⟨dir, backed, isOpen⟩
    refine .bind (read_ensures ready (by exact atStart) ?_)
    intro cnt ehdr after _ readyAfter _ delivered
    dsimp only
    split
    · exact .pure trivial
    next accepted =>
      have complete : cnt = (Files.ehdrSize : ℤ) := by tauto
      have inside := (delivered complete).1.inside (by decide)
      have nonneg : 0 ≤ ino.data.size := by omega
      refine .bind ((loadHeaders_ensures readyAfter nonneg).mono ?_)
      intro loaded later _
      cases loaded with
      | false => exact .pure trivial
      | true =>
        exact .bind ((Harmless.setupStack room pd esp line ret later).mono fun _ _ _ =>
          .pure trivial)

/-- Loading is safe for every executable and every outcome of every allocation. -/
theorem load_safe (room fuel : ℕ) (line : List Byte) (esp ret : Word) (state : Loading)
    (booted : Booted state.memory) :
    ∀ event ∈ (load room fuel line esp ret state).events, event.Safe := by
  have ensures : Ensures Event.Safe (load room fuel line esp ret) state fun _ _ => True := by
    refine .bind (.onPart ?_)
    intro pd created creates
    cases pd with
    | none => exact .pure trivial
    | some pd =>
      rcases booted.pagedirCreate_eq creates with ⟨directory, unmapped⟩
      have backed : Backed created pd := by
        intro va page isUser isFrame
        rw [unmapped va isUser] at isFrame
        cases isFrame
      refine .bind (.bind (.emit trivial ?_))
      split
      swap
      · exact .stop _
      refine .pure ?_
      cases lineTokens line with
      | nil => exact .stop _
      | cons name rest =>
        refine .bind (.onPart ?_)
        intro opened fs opens
        cases opened with
        | none => exact .pure trivial
        | some file =>
          refine .bind (.onPart ?_)
          intro denied fs denies
          have samePos : denied.pos = 0 := by
            rw [fileDenyWrite_pos denies]
            exact (filesysOpen_fresh opens).1
          refine .bind (.updates (loadFile_ensures ?_ ?_ ?_ esp line ret))
          · exact directory
          · exact backed
          · exact samePos
  exact ensures.1

def smallExecutable : ℕ → Byte :=
  overlay
    (overlay
      (bytesOfWords fun index =>
        ([0x464c457f, 0x00010101, 0, 0, 0x00030002, 1, 0x08048000, 52, 0, 0, 0x00200034, 1, 0].getD
          index 0))
      52 32 (bytesOfWords fun index => [1, 0, 0x08048000, 0, 84, 84, 7, 4096].getD index 0))
    84 428 fun _ => 0

def smallLoading : Loading where
  fs := ((smallFs 84).writeSector 5 (.ofBytes (DirEntry.filled (fun _ => 0) [97] 2))).writeSector 3
    (.ofBytes smallExecutable)
  memory :=
    { bootMemory with
      answers := fun request =>
        [0xc0103000, 0xc0105000, 0xc0106000, 0xc0107000, 0xc0108000][request]? }
  file := ⟨0, 0, false⟩

/-- A successful call of `load_segment` with these arguments. -/
def Event.segmentLoaded (ofs : ℤ) (upage readBytes zeroBytes : Word) : Event → Bool
  | .returned success _ _ itsOfs itsUpage itsReadBytes itsZeroBytes =>
    success && itsOfs = ofs && itsUpage = upage && itsReadBytes = readBytes &&
      itsZeroBytes = zeroBytes
  | _ => false

/-- The executable is loaded with its one segment, and safely. -/
theorem load_safe_small :
    (load 1000 20 [97] 0 0 smallLoading).ended.toOption.map Prod.fst = some true ∧
      (load 1000 20 [97] 0 0 smallLoading).events.any
        (Event.segmentLoaded 0 0x08048000 84 4012) = true ∧
      ∀ event ∈ (load 1000 20 [97] 0 0 smallLoading).events, event.Safe :=
  ⟨by decide +kernel, by decide +kernel, load_safe 1000 20 [97] 0 0 smallLoading
    ⟨booted_bootMemory.used, booted_bootMemory.user, booted_bootMemory.table,
      booted_bootMemory.inj⟩⟩

end Loader

end Pintos
