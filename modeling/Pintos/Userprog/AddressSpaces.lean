import Pintos.Userprog.PageTables

/-!
# Page directories are finite maps

A page directory that `pagedir_create` made starts out as the empty map from user pages to
kernel pages. Setting and clearing pages and changing their flags, in any order and with the
rest of the kernel at work in between, keeps it the map of the pages that have been set and not
cleared. `pagedir_destroy` gives back all pages of such a map, as long as each of them is in
use and mapped once: `palloc_free_page` panics for a page that is given back twice.
-/

namespace Pintos

open Function

namespace Paging

open Pintos.Computation Palloc

/-- Memory as `paging_init` leaves it: the initial page directory maps the kernel only. -/
structure Booted (memory : Memory) : Prop where
  used : memory.inUse memory.initPageDir = true
  user : ∀ index, index < 768 → memory.tables memory.initPageDir index = 0
  table : ∀ index, index < 1024 → memory.tables memory.initPageDir index ≠ 0 →
    ∃ pt, memory.IsPage pt ∧ memory.inUse pt = true ∧
      memory.tables memory.initPageDir index = pdeOf pt
  inj : ∀ left right pt, left < 1024 → right < 1024 →
    leads (memory.tables memory.initPageDir left) = some pt →
    leads (memory.tables memory.initPageDir right) = some pt → left = right

variable {pd pt : Word} {memory : Memory}

lemma Booted.pagedirCreate_eq {created : Memory} (booted : Booted memory)
  (creates : pagedirCreate memory = .ok (some pd, created)) :
  Directory created pd ∧ ∀ va, va < physBase → created.pte pd va = 0 := by
  rcases pallocGetPage_cases false memory with ⟨_, gets⟩ | ⟨page, ⟨_, isPage, isFree⟩, gets⟩
  · rw [pagedirCreate, bind_of_ok gets] at creates
    cases creates
  rw [pagedirCreate, bind_of_ok gets] at creates
  cases creates
  have notFree : ∀ page, memory.inUse page = true → page ≠ pd := by
    rintro page used rfl
    rw [isFree] at used
    cases used
  have root : update memory.tables pd (memory.tables memory.initPageDir) pd =
      memory.tables memory.initPageDir := update_self _ _ _
  have emptyUser : ∀ outer inner, outer < 768 → TwoLevel.entryAt leads
      (update memory.tables pd (memory.tables memory.initPageDir)) pd outer inner = none := by
    intro outer inner outerLt
    rw [TwoLevel.entryAt, root, booted.user outer outerLt]
    rfl
  refine ⟨⟨isPage, update_self _ _ _, (notFree _ booted.used).symm, ?_, ⟨?_, ?_⟩, ?_⟩, ?_⟩
  · intro idx idxLt notEmpty
    change update memory.tables pd (memory.tables memory.initPageDir) pd idx ≠ 0 at notEmpty
    rw [root] at notEmpty
    rcases booted.table idx idxLt notEmpty with ⟨pt, tablePage, used, isPde⟩
    exact ⟨pt, tablePage, (update_of_ne (notFree pt used) _ _).trans used,
      (congrFun root idx).trans isPde⟩
  · intro idx idxLt isRoot
    change leads (update memory.tables pd (memory.tables memory.initPageDir) pd idx) =
      some pd at isRoot
    rw [root] at isRoot
    by_cases isEmpty : memory.tables memory.initPageDir idx = 0
    · rw [isEmpty] at isRoot
      cases isRoot
    rcases booted.table idx idxLt isEmpty with ⟨pt, tablePage, used, isPde⟩
    rw [isPde, leads_pdeOf tablePage] at isRoot
    exact notFree pt used (Option.some.inj isRoot)
  · intro left right pt leftLt rightLt isLeft isRight
    change leads (update memory.tables pd (memory.tables memory.initPageDir) pd left) =
      some pt at isLeft
    change leads (update memory.tables pd (memory.tables memory.initPageDir) pd right) =
      some pt at isRight
    rw [root] at isLeft isRight
    exact booted.inj left right pt leftLt rightLt isLeft isRight
  · intro outer inner pte outerLt isEntry
    have found := (emptyUser outer inner outerLt).symm.trans isEntry
    cases found
  intro va isUser
  exact congrArg (Option.getD · 0) (emptyUser _ (ptNo va) (pdNo_lt_of_user isUser))

/-- A page directory in memory, and the pages that have been set and not cleared, by their page
numbers. -/
structure AddressSpace where
  memory : Memory
  pages : Word → Option Word

inductive Op
  | set (upage kpage : Word) (writable : Bool)
  | clear (upage : Word)
  | setDirty (vpage : Word) (dirty : Bool)
  | setAccessed (vpage : Word) (accessed : Bool)

namespace Op

def page : Op → Word
  | .set upage _ _ => upage
  | .clear upage => upage
  | .setDirty vpage _ => vpage
  | .setAccessed vpage _ => vpage

/-- The arguments are as the callers have to choose them; a page is set only while it is
unmapped. -/
def Valid (space : AddressSpace) : Op → Prop
  | .set upage kpage _ => pgOfs upage = 0 ∧ upage < physBase ∧ space.memory.IsPage kpage ∧
      space.pages (pgNo upage) = none
  | .clear upage => pgOfs upage = 0 ∧ upage < physBase
  | .setDirty vpage _ => vpage < physBase
  | .setAccessed vpage _ => vpage < physBase

def perform (pd : Word) : Op → Pager Bool
  | .set upage kpage writable => pagedirSetPage pd upage kpage writable
  | .clear upage => do
    pagedirClearPage pd upage
    pure true
  | .setDirty vpage dirty => do
    pagedirSetDirty pd vpage dirty
    pure true
  | .setAccessed vpage accessed => do
    pagedirSetAccessed pd vpage accessed
    pure true

def effect (result : Bool) (pages : Word → Option Word) : Op → Word → Option Word
  | .set upage kpage _ => if result then update pages (pgNo upage) (some kpage) else pages
  | .clear upage => update pages (pgNo upage) none
  | .setDirty _ _ => pages
  | .setAccessed _ _ => pages

end Op

inductive Step (pd : Word) : AddressSpace → AddressSpace → Prop
  | op {space : AddressSpace} {op : Op} {result : Bool} {after : Memory} (valid : op.Valid space)
      (returned : op.perform pd space.memory = .ok (result, after)) :
      Step pd space { memory := after, pages := op.effect result space.pages }
  | other {space : AddressSpace} {after : Memory}
      (undisturbed : Undisturbed pd space.memory after) :
      Step pd space { space with memory := after }

structure Represents (pd : Word) (space : AddressSpace) : Prop where
  directory : Directory space.memory pd
  frame_eq : ∀ va, va < physBase → frameOf (space.memory.pte pd va) = space.pages (pgNo va)

lemma frameOf_zero : frameOf 0 = none := by
  rw [frameOf, if_neg (by decide)]

lemma pteD_present : pteD &&& pteP = 0#32 := by decide

lemma pteD_address : pteD &&& pteAddr = 0#32 := by decide

lemma pteA_present : pteA &&& pteP = 0#32 := by decide

lemma pteA_address : pteA &&& pteAddr = 0#32 := by decide

variable {space : AddressSpace}

namespace Represents

variable {after : Memory}

section

variable (represents : Represents pd space)
include represents

lemma of_pte {pages : Word → Option Word} {word : Word} (va : Word) (dir : Directory after pd)
  (pte_eq : ∀ other, after.pte pd other =
    if pgNo other = pgNo va then word else space.memory.pte pd other)
  (atPage : frameOf word = pages (pgNo va))
  (elsewhere : ∀ num, num ≠ pgNo va → pages num = space.pages num) :
  Represents pd { memory := after, pages := pages } := by
  refine ⟨dir, ?_⟩
  intro other isUser
  change frameOf (after.pte pd other) = pages (pgNo other)
  rw [pte_eq]
  split
  · next same => rw [same, atPage]
  · next ne => rw [elsewhere _ ne, represents.frame_eq other isUser]

lemma setFlag_eq {flag vpage : Word} (isUser : vpage < physBase) (notPresent : flag &&& pteP = 0#32)
  (notAddr : flag &&& pteAddr = 0#32) (val : Bool) :
  ∃ after, pagedirSetFlag flag pd vpage val space.memory = .ok ((), after) ∧
    Represents pd { memory := after, pages := space.pages } ∧
    ∀ other, pgNo other ≠ pgNo vpage → after.pte pd other = space.memory.pte pd other := by
  rcases represents.directory.pagedirSetFlag_eq isUser notPresent notAddr val with
    ⟨after, word, performed, dirAfter, _, frame_eq, pte_eq⟩
  refine ⟨after, performed, ?_, ?_⟩
  · refine represents.of_pte vpage dirAfter pte_eq ?_ fun _ _ => rfl
    rw [frame_eq, represents.frame_eq vpage isUser]
  intro other ne
  rw [pte_eq, if_neg ne]

lemma perform_eq {op : Op} (valid : op.Valid space) :
  ∃ res after, op.perform pd space.memory = .ok (res, after) ∧
    Represents pd { memory := after, pages := op.effect res space.pages } ∧
    (∀ other, pgNo other ≠ pgNo op.page → after.pte pd other = space.memory.pte pd other) ∧
    (res = false → ∀ other, after.pte pd other = space.memory.pte pd other) := by
  have dir := represents.directory
  cases op with
  | set upage kpage writable =>
    rcases valid with ⟨aligned, isUser, isPage, unset⟩
    have unmapped : frameOf (space.memory.pte pd upage) = none := by
      rw [represents.frame_eq upage isUser, unset]
    rcases dir.pagedirSetPage_eq aligned isUser isPage unmapped writable with
      ⟨res, after, performed, dirAfter, _, _, pte_eq⟩
    refine ⟨res, after, performed, ?_, ?_, ?_⟩
    · cases res with
      | false =>
        refine ⟨dirAfter, ?_⟩
        intro other otherUser
        change frameOf (after.pte pd other) = space.pages (pgNo other)
        rw [pte_eq, if_neg (by simp), represents.frame_eq other otherUser]
      | true =>
        refine represents.of_pte upage dirAfter (by simpa using pte_eq) ?_ ?_
        · simp only [Op.effect, if_true, update_self]
          exact frameOf_pteOf isPage writable
        intro num ne
        exact update_of_ne ne _ _
    · intro other ne
      rw [pte_eq, if_neg fun both => ne both.2]
    intro failed other
    rw [pte_eq, if_neg fun both => by simp [failed] at both]
  | clear upage =>
    rcases dir.pagedirClearPage_eq valid.1 valid.2 with
      ⟨after, performed, dirAfter, _, pte_eq⟩
    refine ⟨true, after, bind_of_ok performed, ?_, ?_, by simp⟩
    · refine represents.of_pte upage dirAfter pte_eq ?_ ?_
      · simp only [Op.effect, update_self]
        exact frameOf_clear _
      intro num ne
      exact update_of_ne ne _ _
    intro other ne
    rw [pte_eq, if_neg (by exact ne)]
  | setDirty vpage dirty =>
    rcases represents.setFlag_eq valid pteD_present pteD_address dirty with
      ⟨after, performed, representsAfter, same⟩
    exact ⟨true, after, bind_of_ok performed, representsAfter, same, by simp⟩
  | setAccessed vpage accessed =>
    rcases represents.setFlag_eq valid pteA_present pteA_address accessed with
      ⟨after, performed, representsAfter, same⟩
    exact ⟨true, after, bind_of_ok performed, representsAfter, same, by simp⟩

lemma of_undisturbed (undisturbed : Undisturbed pd space.memory after) :
  Represents pd { space with memory := after } := by
  rcases represents.directory.of_undisturbed undisturbed with ⟨dir, same⟩
  refine ⟨dir, ?_⟩
  intro va isUser
  rw [same, represents.frame_eq va isUser]

lemma of_step {after : AddressSpace} (step : Step pd space after) : Represents pd after := by
  cases step with
  | op valid returned =>
    rcases represents.perform_eq valid with ⟨res, memory, performed, representsAfter, _⟩
    rw [returned] at performed
    cases performed
    exact representsAfter
  | other undisturbed => exact represents.of_undisturbed undisturbed

end

end Represents

def mappedPages (memory : Memory) (pt : Word) : List Word :=
  (List.range 1024).flatMap fun inner => (frameOf (memory.tables pt inner)).toList

def tablePages (memory : Memory) (pd : Word) (outer : ℕ) : List Word :=
  (leads (memory.tables pd outer)).elim [] fun pt => mappedPages memory pt ++ [pt]

def referencedPages (memory : Memory) (pd : Word) : List Word :=
  (List.range 768).flatMap (tablePages memory pd) ++ [pd]

structure Freed (memory : Memory) (done : List Word) (now : Memory) : Prop where
  freed_eq : now.freed = memory.freed ++ done
  initRamPages_eq : now.initRamPages = memory.initRamPages
  tables_eq : ∀ page, page ∉ done → now.tables page = memory.tables page
  inUse_eq : ∀ page, page ∉ done → now.inUse page = memory.inUse page

namespace Freed

variable {now : Memory} {done : List Word} {idx : ℕ}

lemma nothing (memory : Memory) : Freed memory [] memory :=
  ⟨(List.append_nil _).symm, rfl, fun _ _ => rfl, fun _ _ => rfl⟩

lemma pallocFreePage_eq (freed : Freed memory done now) {page : Word}
  (isPage : memory.IsPage page) (used : memory.inUse page = true) (isNew : page ∉ done) :
  ∃ after, pallocFreePage page now = .ok ((), after) ∧ Freed memory (done ++ [page]) after := by
  have nowPage : now.IsPage page := by
    unfold Memory.IsPage
    rw [freed.initRamPages_eq]
    exact isPage
  have nowUsed := (freed.inUse_eq page isNew).trans used
  rw [pallocFreePage_used nowPage nowUsed]
  refine ⟨_, rfl, ?_, freed.initRamPages_eq, ?_, ?_⟩
  · rw [← List.append_assoc, ← freed.freed_eq]
  · intro other isOther
    rw [List.mem_append, List.mem_singleton, not_or] at isOther
    exact (update_of_ne isOther.2 _ _).trans (freed.tables_eq other isOther.1)
  intro other isOther
  rw [List.mem_append, List.mem_singleton, not_or] at isOther
  exact (update_of_ne isOther.2 _ _).trans (freed.inUse_eq other isOther.1)

lemma forM_eq (body : ℕ → Pager Unit) (pages : ℕ → List Word) (kept : List Word)
  (indices : List ℕ) (frees : ∀ idx ∈ indices, ∀ done now, Freed memory done now →
    (done ++ pages idx ++ kept).Nodup →
    ∃ after, body idx now = .ok ((), after) ∧ Freed memory (done ++ pages idx) after)
  (freed : Freed memory done now) (distinct : (done ++ indices.flatMap pages ++ kept).Nodup) :
  ∃ after, indices.forM body now = .ok ((), after) ∧
    Freed memory (done ++ indices.flatMap pages) after := by
  induction indices generalizing done now with
  | nil => exact ⟨now, rfl, by rwa [List.flatMap_nil, List.append_nil]⟩
  | cons idx rest ih =>
    rw [List.flatMap_cons, ← List.append_assoc] at distinct ⊢
    have first : (done ++ pages idx ++ kept).Nodup :=
      distinct.sublist (List.Sublist.append_right (List.sublist_append_left _ _) _)
    rcases frees idx List.mem_cons_self done now freed first with ⟨mid, ran, freedMid⟩
    rcases ih (fun later isLater => frees later (List.mem_cons_of_mem _ isLater)) freedMid
      distinct with ⟨after, ranRest, freedAfter⟩
    exact ⟨after, (bind_of_ok ran).trans ranRest, freedAfter⟩

lemma freeEntry_eq (freed : Freed memory done now)
  (low : memory.tables pt idx &&& pteAddr < physBase)
  (allUsed : ∀ page ∈ (frameOf (memory.tables pt idx)).toList,
    memory.IsPage page ∧ memory.inUse page = true)
  (distinct : (done ++ (frameOf (memory.tables pt idx)).toList ++ [pt]).Nodup) :
  ∃ after, freeEntry pt idx now = .ok ((), after) ∧
    Freed memory (done ++ (frameOf (memory.tables pt idx)).toList) after := by
  have isKept : pt ∉ done := fun isDone => List.disjoint_of_nodup_append distinct
    (List.mem_append_left _ isDone) (List.mem_singleton_self pt)
  rw [freeEntry, load_bind, freed.tables_eq pt isKept]
  by_cases present : memory.tables pt idx &&& pteP ≠ 0
  · have isFrame : frameOf (memory.tables pt idx) =
        some ((memory.tables pt idx &&& pteAddr) + physBase) := if_pos present
    rw [isFrame] at allUsed distinct ⊢
    rcases allUsed _ (List.mem_singleton_self _) with ⟨isPage, used⟩
    have isNew := fun isDone => List.disjoint_of_nodup_append distinct.of_append_left isDone
      (List.mem_singleton_self ((memory.tables pt idx &&& pteAddr) + physBase))
    rw [if_pos present, pteGetPage, bind_of_ok (ptov_of_lt low now)]
    exact freed.pallocFreePage_eq isPage used isNew
  have isFrame : frameOf (memory.tables pt idx) = none := if_neg present
  rw [isFrame, Option.toList_none, List.append_nil, if_neg present]
  exact ⟨now, rfl, freed⟩

lemma freeTable_eq (freed : Freed memory done now) (dir : Directory memory pd) (idxLt : idx < 768)
  (allUsed : ∀ page ∈ tablePages memory pd idx, memory.IsPage page ∧ memory.inUse page = true)
  (distinct : (done ++ tablePages memory pd idx ++ [pd]).Nodup) :
  ∃ after, freeTable pd idx now = .ok ((), after) ∧
    Freed memory (done ++ tablePages memory pd idx) after := by
  have isKept : pd ∉ done := fun isDone => List.disjoint_of_nodup_append distinct
    (List.mem_append_left _ isDone) (List.mem_singleton_self pd)
  rw [freeTable, load_bind, freed.tables_eq pd isKept]
  by_cases isEmpty : memory.tables pd idx = 0
  · have nothingBelow : tablePages memory pd idx = [] := by
      rw [tablePages, leads, if_pos isEmpty, Option.elim_none]
    rw [nothingBelow, List.append_nil, isEmpty]
    exact ⟨now, rfl, freed⟩
  rcases dir.leads_eq_some (by omega) isEmpty with ⟨pt, isPage, _, isPde, isTable⟩
  have below : tablePages memory pd idx = mappedPages memory pt ++ [pt] := by
    rw [tablePages, isTable, Option.elim_some]
  have nowPage : now.IsPage pt := by
    unfold Memory.IsPage
    rw [freed.initRamPages_eq]
    exact isPage
  rw [below] at allUsed distinct ⊢
  rw [← List.append_assoc] at distinct ⊢
  have low : ∀ inner, memory.tables pt inner &&& pteAddr < physBase := by
    intro inner
    exact dir.frame idx inner _ idxLt (TwoLevel.entryAt_of_leads isTable inner)
  have entryUsed : ∀ inner ∈ List.range 1024, ∀ page ∈ (frameOf (memory.tables pt inner)).toList,
        memory.IsPage page ∧ memory.inUse page = true := by
    intro inner isInner page isMapped
    exact allUsed page (List.mem_append_left _ (List.mem_flatMap.mpr ⟨inner, isInner, isMapped⟩))
  rcases forM_eq (freeEntry pt) (fun inner => (frameOf (memory.tables pt inner)).toList) [pt]
    (List.range 1024) (fun inner isInner done now freed distinct =>
      freed.freeEntry_eq (low inner) (entryUsed inner isInner) distinct)
    freed distinct.of_append_left with ⟨mid, ran, freedMid⟩
  have isNew : pt ∉ done ++ mappedPages memory pt := fun isDone =>
    List.disjoint_of_nodup_append distinct.of_append_left isDone (List.mem_singleton_self pt)
  rcases allUsed pt (List.mem_append_right _ (List.mem_singleton_self pt)) with ⟨_, used⟩
  rcases freedMid.pallocFreePage_eq isPage used isNew with ⟨after, ranLast, freedAfter⟩
  rw [isPde, if_pos (pdeOf_present pt), bind_of_ok (pdeGetPt_pdeOf nowPage), bind_of_ok ran]
  exact ⟨after, ranLast, freedAfter⟩

end Freed

lemma Directory.pagedirDestroy_eq (dir : Directory memory pd)
  (allUsed : ∀ page ∈ referencedPages memory pd, memory.IsPage page ∧ memory.inUse page = true)
  (distinct : (referencedPages memory pd).Nodup) :
  ∃ after, pagedirDestroy (some pd) memory = .ok ((), after) ∧
    Freed memory (referencedPages memory pd) after := by
  have tableUsed : ∀ idx ∈ List.range 768, ∀ page ∈ tablePages memory pd idx,
      memory.IsPage page ∧ memory.inUse page = true := by
    intro idx isIdx page isBelow
    exact allUsed page (List.mem_append_left _ (List.mem_flatMap.mpr ⟨idx, isIdx, isBelow⟩))
  rcases Freed.forM_eq (freeTable pd) (tablePages memory pd) [pd] (List.range 768)
    (fun idx isIdx done now freed distinct =>
      freed.freeTable_eq dir (List.mem_range.mp isIdx) (tableUsed idx isIdx) distinct)
    (Freed.nothing memory) (by rwa [List.nil_append]) with ⟨mid, ran, freedMid⟩
  rw [List.nil_append] at freedMid
  have isNew : pd ∉ (List.range 768).flatMap (tablePages memory pd) := fun isDone =>
    List.disjoint_of_nodup_append distinct isDone (List.mem_singleton_self pd)
  rcases freedMid.pallocFreePage_eq dir.page dir.used isNew with
    ⟨after, ranLast, freedAfter⟩
  have bound : pdNo physBase = 768 := by decide
  rw [pagedirDestroy, reads_bind_apply, id, assert_bind dir.notInit, bound, bind_of_ok ran]
  exact ⟨after, ranLast, freedAfter⟩

def AddressSpace.Maps (space : AddressSpace) (va page : Word) : Prop :=
  va < physBase ∧ space.pages (pgNo va) = some page

def AddressSpace.HasTable (space : AddressSpace) (pd pt : Word) : Prop :=
  ∃ outer, outer < 768 ∧ leads (space.memory.tables pd outer) = some pt

/-- The mapped pages belong to the directory: they are in use, each is mapped once, and none of
them holds the directory or one of its tables. -/
structure Owns (pd : Word) (space : AddressSpace) : Prop where
  used : ∀ va page, space.Maps va page →
    space.memory.IsPage page ∧ space.memory.inUse page = true
  once : ∀ va other page, space.Maps va page → space.Maps other page → pgNo va = pgNo other
  notDirectory : ∀ va, ¬space.Maps va pd
  notTable : ∀ va pt, space.Maps va pt → ¬space.HasTable pd pt

namespace Represents

variable {outer : ℕ} {page : Word}

section

variable (represents : Represents pd space)
include represents

lemma maps_addressAt (outerLt : outer < 768)
  (isTable : leads (space.memory.tables pd outer) = some pt) {inner : ℕ} (innerLt : inner < 1024)
  (isFrame : frameOf (space.memory.tables pt inner) = some page) :
  space.Maps (addressAt outer inner) page := by
  have isOuter := pdNo_addressAt (show outer < 1024 by omega) innerLt
  have isInner := ptNo_addressAt (show outer < 1024 by omega) innerLt
  have isUser : addressAt outer inner < physBase := by
    change (addressAt outer inner).toNat < 0xc0000000
    rw [toNat_addressAt (by omega) innerLt]
    omega
  refine ⟨isUser, ?_⟩
  rw [← represents.frame_eq _ isUser, Directory.pte_of_leads (isOuter.symm ▸ isTable), isInner,
    isFrame]

lemma mem_mappedPages (outerLt : outer < 768)
  (isTable : leads (space.memory.tables pd outer) = some pt) :
  page ∈ mappedPages space.memory pt ↔ ∃ va, pdNo va = outer ∧ space.Maps va page := by
  simp only [mappedPages, List.mem_flatMap, List.mem_range, Option.mem_toList]
  constructor
  · rintro ⟨inner, innerLt, isFrame⟩
    exact ⟨addressAt outer inner, pdNo_addressAt (by omega) innerLt,
      represents.maps_addressAt outerLt isTable innerLt isFrame⟩
  rintro ⟨va, rfl, isUser, isSet⟩
  refine ⟨ptNo va, ptNo_lt va, ?_⟩
  rw [← Directory.pte_of_leads isTable, represents.frame_eq va isUser, isSet]

lemma mem_tablePages (outerLt : outer < 768) : page ∈ tablePages space.memory pd outer ↔
    leads (space.memory.tables pd outer) = some page ∨
      ∃ va, pdNo va = outer ∧ space.Maps va page := by
  rw [tablePages]
  cases isTable : leads (space.memory.tables pd outer) with
  | none =>
    simp only [Option.elim_none, List.not_mem_nil, reduceCtorEq, false_or, false_iff]
    rintro ⟨va, rfl, isUser, isSet⟩
    have isZero : space.memory.pte pd va = 0 := by
      rw [Memory.pte, TwoLevel.entryAt, isTable]
      rfl
    rw [← represents.frame_eq va isUser, isZero] at isSet
    cases isSet
  | some pt =>
    rw [Option.elim_some, List.mem_append, represents.mem_mappedPages outerLt isTable,
      List.mem_singleton, Option.some_inj, or_comm, eq_comm]

lemma mem_referencedPages : page ∈ referencedPages space.memory pd ↔
    page = pd ∨ space.HasTable pd page ∨ ∃ va, space.Maps va page := by
  rw [referencedPages, List.mem_append, List.mem_singleton, List.mem_flatMap, or_comm]
  refine or_congr_right ?_
  constructor
  · rintro ⟨outer, isOuter, isBelow⟩
    rcases (represents.mem_tablePages (List.mem_range.mp isOuter)).mp isBelow with
      isTable | ⟨va, _, maps⟩
    · exact Or.inl ⟨outer, List.mem_range.mp isOuter, isTable⟩
    · exact Or.inr ⟨va, maps⟩
  rintro (⟨outer, outerLt, isTable⟩ | ⟨va, maps⟩)
  · exact ⟨outer, List.mem_range.mpr outerLt,
      (represents.mem_tablePages outerLt).mpr (Or.inl isTable)⟩
  have outerLt := pdNo_lt_of_user maps.1
  exact ⟨pdNo va, List.mem_range.mpr outerLt,
    (represents.mem_tablePages outerLt).mpr (Or.inr ⟨va, rfl, maps⟩)⟩

lemma nodup_mappedPages (owns : Owns pd space) (outerLt : outer < 768)
  (isTable : leads (space.memory.tables pd outer) = some pt) :
  (mappedPages space.memory pt).Nodup := by
  rw [mappedPages, List.nodup_flatMap]
  refine ⟨?_, ?_⟩
  · intro inner _
    cases frameOf (space.memory.tables pt inner) with
    | none => exact List.nodup_nil
    | some page => exact List.nodup_singleton page
  refine List.Pairwise.imp_of_mem ?_ List.nodup_range
  intro left right isLeft isRight differ page inLeft inRight
  rw [Option.mem_toList] at inLeft inRight
  have leftLt := List.mem_range.mp isLeft
  have rightLt := List.mem_range.mp isRight
  have same := (pgNo_eq_iff.mp (owns.once _ _ page
    (represents.maps_addressAt outerLt isTable leftLt inLeft)
    (represents.maps_addressAt outerLt isTable rightLt inRight))).2
  rw [ptNo_addressAt (by omega) leftLt, ptNo_addressAt (by omega) rightLt] at same
  exact differ same

lemma nodup_tablePages (owns : Owns pd space) (outerLt : outer < 768) :
  (tablePages space.memory pd outer).Nodup := by
  rw [tablePages]
  cases isTable : leads (space.memory.tables pd outer) with
  | none => exact List.nodup_nil
  | some pt =>
    rw [Option.elim_some, List.nodup_append']
    refine ⟨represents.nodup_mappedPages owns outerLt isTable, List.nodup_singleton pt, ?_⟩
    intro page isMapped isPt
    rw [List.mem_singleton] at isPt
    subst isPt
    rcases (represents.mem_mappedPages outerLt isTable).mp isMapped with ⟨va, _, maps⟩
    exact owns.notTable va page maps ⟨outer, outerLt, isTable⟩

lemma nodup_referencedPages (owns : Owns pd space) : (referencedPages space.memory pd).Nodup := by
  rw [referencedPages, List.nodup_append', List.nodup_flatMap]
  refine ⟨⟨fun outer isOuter => represents.nodup_tablePages owns (List.mem_range.mp isOuter), ?_⟩,
    List.nodup_singleton pd, ?_⟩
  · refine List.Pairwise.imp_of_mem ?_ List.nodup_range
    intro left right isLeft isRight differ page inLeft inRight
    have leftLt := List.mem_range.mp isLeft
    have rightLt := List.mem_range.mp isRight
    rcases (represents.mem_tablePages leftLt).mp inLeft with leftTable | ⟨va, isLeft, maps⟩
    · rcases (represents.mem_tablePages rightLt).mp inRight with rightTable | ⟨other, _, maps⟩
      · exact differ (represents.directory.separate.inj left right page (by omega) (by omega)
          leftTable rightTable)
      · exact owns.notTable other page maps ⟨left, leftLt, leftTable⟩
    rcases (represents.mem_tablePages rightLt).mp inRight with
      rightTable | ⟨other, isRight, mapsOther⟩
    · exact owns.notTable va page maps ⟨right, rightLt, rightTable⟩
    have same := (pgNo_eq_iff.mp (owns.once va other page maps mapsOther)).1
    exact differ (isLeft.symm.trans (same.trans isRight))
  intro page isBelow isDir
  rw [List.mem_singleton] at isDir
  subst isDir
  rcases List.mem_flatMap.mp isBelow with ⟨outer, isOuter, isBelow⟩
  have outerLt := List.mem_range.mp isOuter
  rcases (represents.mem_tablePages outerLt).mp isBelow with isTable | ⟨va, _, maps⟩
  · exact represents.directory.separate.not_root outer (by omega) isTable
  · exact owns.notDirectory va maps

lemma used_referencedPages (owns : Owns pd space) : ∀ page ∈ referencedPages space.memory pd,
    space.memory.IsPage page ∧ space.memory.inUse page = true := by
  intro page isReferenced
  rcases represents.mem_referencedPages.mp isReferenced with
    rfl | ⟨outer, outerLt, isTable⟩ | ⟨va, maps⟩
  · exact ⟨represents.directory.page, represents.directory.used⟩
  · exact represents.directory.table_of_leads (by omega) isTable
  · exact owns.used va page maps

end

end Represents

/-- `pagedir_destroy` frees each mapped page, each page table for user addresses and the
directory, and each of them once. -/
def DestroysOnce (pd : Word) (space : AddressSpace) : Prop :=
  ∃ after released, pagedirDestroy (some pd) space.memory = .ok ((), after) ∧
    after.freed = space.memory.freed ++ released ∧ released.Nodup ∧
    ∀ page, page ∈ released ↔ page = pd ∨ space.HasTable pd page ∨ ∃ va, space.Maps va page

/-- The directory behaves as the map of the pages that are set: it translates by the map, every
operation returns and changes no entry of another page, user or kernel, and one that fails changes
no entry. -/
structure FiniteMap (pd : Word) (space : AddressSpace) : Prop where
  translates : ∀ uaddr, uaddr < physBase → pagedirGetPage pd uaddr space.memory =
    .ok ((space.pages (pgNo uaddr)).map fun kpage => kpage + pgOfs uaddr, space.memory)
  separates : ∀ op : Op, op.Valid space → ∃ result after,
    op.perform pd space.memory = .ok (result, after) ∧
      (∀ other, pgNo other ≠ pgNo op.page → after.pte pd other = space.memory.pte pd other) ∧
      (result = false → ∀ other, after.pte pd other = space.memory.pte pd other)

def AddressSpace.Created (pd : Word) (space : AddressSpace) : Prop :=
  (∃ memory, Booted memory ∧ pagedirCreate memory = .ok (some pd, space.memory)) ∧
    space.pages = fun _ => none

lemma represents_of_reached (reached : Reachable (AddressSpace.Created pd) (Step pd) space) :
  Represents pd space := by
  refine reached.invariant ?_ fun _ _ represents step => represents.of_step step
  rintro created ⟨⟨memory, booted, creates⟩, isEmpty⟩
  rcases booted.pagedirCreate_eq creates with ⟨dir, unmapped⟩
  refine ⟨dir, ?_⟩
  intro va isUser
  rw [unmapped va isUser, isEmpty]
  exact frameOf_zero

/-- A page directory is the finite map of the pages that are set, and is given back whole when the
pages that are set belong to it. -/
theorem finiteMap_of_reached {pd : Word} {space : AddressSpace}
    (reached : Reachable (AddressSpace.Created pd) (Step pd) space) :
    FiniteMap pd space ∧ (Owns pd space → DestroysOnce pd space) := by
  have represents := represents_of_reached reached
  refine ⟨⟨?_, ?_⟩, ?_⟩
  · intro uaddr isUser
    rw [represents.directory.pagedirGetPage_eq isUser, represents.frame_eq uaddr isUser]
  · intro op valid
    rcases represents.perform_eq valid with ⟨result, after, performed, _, separate, failed⟩
    exact ⟨result, after, performed, separate, failed⟩
  intro owns
  rcases represents.directory.pagedirDestroy_eq (represents.used_referencedPages owns)
    (represents.nodup_referencedPages owns) with ⟨after, destroyed, freed⟩
  exact ⟨after, _, destroyed, freed.freed_eq, represents.nodup_referencedPages owns,
    fun page => represents.mem_referencedPages⟩

/-- A machine of 4 MB whose kernel is mapped by one page table, with a page in use at
`0xc0104000`. -/
def bootMemory : Memory where
  tables page index :=
    if page = 0xc0101000 ∧ index = 768 then pdeOf 0xc0102000
    else if page = 0xc0102000 then BitVec.ofNat 32 (index * 4096) ||| pteP ||| pteW
    else 0
  bytes _ _ := 0
  inUse page := decide (page ∈ [0xc0101000, 0xc0102000, 0xc0104000])
  freed := []
  answers request := [0xc0103000, 0xc0105000][request]?
  initRamPages := 1024
  initPageDir := 0xc0101000

lemma booted_bootMemory : Booted bootMemory := by
  have root : ∀ idx, idx ≠ 768 → bootMemory.tables bootMemory.initPageDir idx = 0 := by
    intro idx ne
    change (if (0xc0101000 : Word) = 0xc0101000 ∧ idx = 768 then _ else _) = _
    rw [if_neg fun both => ne both.2, if_neg (by decide)]
  have leadsOnly : ∀ idx pt, leads (bootMemory.tables bootMemory.initPageDir idx) = some pt →
      idx = 768 := by
    intro idx pt isTable
    by_contra ne
    rw [root idx ne] at isTable
    cases isTable
  refine ⟨by decide, ?_, ?_, ?_⟩
  · intro idx idxLt
    exact root idx (by omega)
  · intro idx _ notEmpty
    have isKernel : idx = 768 := by
      by_contra ne
      exact notEmpty (root idx ne)
    subst isKernel
    exact ⟨0xc0102000, by decide, by decide, rfl⟩
  intro left right pt _ _ isLeft isRight
  rw [leadsOnly left pt isLeft, leadsOnly right pt isRight]

instance (op : Op) (space : AddressSpace) : Decidable (op.Valid space) := by
  cases op with
  | set upage kpage writable => exact inferInstanceAs (Decidable (_ ∧ _ ∧ _ ∧ _))
  | clear upage => exact inferInstanceAs (Decidable (_ ∧ _))
  | setDirty vpage dirty => exact inferInstanceAs (Decidable (vpage < physBase))
  | setAccessed vpage accessed => exact inferInstanceAs (Decidable (vpage < physBase))

def AddressSpace.perform (pd : Word) (op : Op) (space : AddressSpace) : Option AddressSpace :=
  if op.Valid space then
    (op.perform pd space.memory).toOption.map fun outcome =>
      { memory := outcome.2, pages := op.effect outcome.1 space.pages }
  else none

lemma reached_of_perform {op : Op} {after : AddressSpace}
  (reached : Reachable (AddressSpace.Created pd) (Step pd) space)
  (performed : space.perform pd op = some after) :
  Reachable (AddressSpace.Created pd) (Step pd) after := by
  rw [AddressSpace.perform] at performed
  split at performed
  · next valid =>
      rcases Option.map_eq_some_iff.mp performed with ⟨⟨res, memory⟩, returned, rfl⟩
      exact reached.next (Step.op valid (eq_ok_of_toOption returned))
  · cases performed

def mapPage (upage : Word) : Op := .set upage 0xc0104000 true

def mappedOnce : Option AddressSpace :=
  match pagedirCreate bootMemory with
  | .ok (some 0xc0103000, created) =>
    AddressSpace.perform 0xc0103000 (mapPage 0x08048000) ⟨created, fun _ => none⟩
  | _ => none

lemma reached_mappedOnce (isMapped : mappedOnce = some space) :
  Reachable (AddressSpace.Created 0xc0103000) (Step 0xc0103000) space := by
  rw [mappedOnce] at isMapped
  split at isMapped
  · next created creates =>
      refine reached_of_perform (.start ⟨⟨bootMemory, booted_bootMemory, ?_⟩, rfl⟩) isMapped
      exact creates
  · cases isMapped

lemma maps_mappedOnce (isMapped : mappedOnce = some space) {va page : Word}
  (maps : space.Maps va page) : pgNo va = pgNo 0x08048000 ∧ page = 0xc0104000 := by
  rw [mappedOnce] at isMapped
  split at isMapped
  · rw [AddressSpace.perform] at isMapped
    split at isMapped
    · rcases Option.map_eq_some_iff.mp isMapped with ⟨⟨res, memory⟩, _, rfl⟩
      have isSet : Op.effect res (fun _ => none) (mapPage 0x08048000) (pgNo va) = some page :=
        maps.2
      rw [mapPage, Op.effect] at isSet
      cases res with
      | false => cases isSet
      | true =>
        by_cases same : pgNo va = pgNo 0x08048000
        · rw [if_pos rfl, same] at isSet
          exact ⟨same, (Option.some.inj isSet).symm⟩
        rw [if_pos rfl, update_of_ne same] at isSet
        cases isSet
    · cases isMapped
  · cases isMapped

/-- A directory with one page is given back whole. -/
theorem finiteMap_mappedOnce : ∃ space, space.pages (pgNo 0x08048000) = some 0xc0104000 ∧
    FiniteMap 0xc0103000 space ∧ DestroysOnce 0xc0103000 space := by
  have runs : mappedOnce.any (fun space =>
      decide (space.pages (pgNo 0x08048000) = some 0xc0104000 ∧
        (space.memory.IsPage 0xc0104000 ∧ space.memory.inUse 0xc0104000 = true) ∧
        ∀ outer ∈ List.range 768,
          leads (space.memory.tables 0xc0103000 outer) ≠ some 0xc0104000)) = true := by
    decide +kernel
  rcases (Option.any_eq_true ..).mp runs with ⟨space, isMapped, checks⟩
  rcases of_decide_eq_true checks with ⟨isSet, used, notTable⟩
  have holds := finiteMap_of_reached (reached_mappedOnce isMapped)
  refine ⟨space, isSet, holds.1, holds.2 ⟨?_, ?_, ?_, ?_⟩⟩
  · intro va page maps
    rw [(maps_mappedOnce isMapped maps).2]
    exact used
  · intro va other page maps mapsOther
    rw [(maps_mappedOnce isMapped maps).1, (maps_mappedOnce isMapped mapsOther).1]
  · intro va maps
    exact absurd (maps_mappedOnce isMapped maps).2 (by decide)
  rintro va pt maps ⟨outer, outerLt, isTable⟩
  rw [(maps_mappedOnce isMapped maps).2] at isTable
  exact notTable outer (List.mem_range.mpr outerLt) isTable

/-- A page that is mapped twice is freed twice, which is a panic. -/
theorem not_destroysOnce_mappedTwice : ∃ space,
    Reachable (AddressSpace.Created 0xc0103000) (Step 0xc0103000) space ∧
      ¬DestroysOnce 0xc0103000 space := by
  have runs : (mappedOnce.bind (AddressSpace.perform 0xc0103000 (mapPage 0x08049000))).any
      (fun space => (pagedirDestroy (some 0xc0103000) space.memory).toOption.isNone) = true := by
    decide +kernel
  rcases (Option.any_eq_true ..).mp runs with ⟨space, isMapped, panics⟩
  rcases Option.bind_eq_some_iff.mp isMapped with ⟨first, isFirst, isSecond⟩
  refine ⟨space, reached_of_perform (reached_mappedOnce isFirst) isSecond, ?_⟩
  rintro ⟨after, _, destroyed, _⟩
  rw [destroyed] at panics
  cases panics

end Paging

end Pintos
