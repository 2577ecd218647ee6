import Pintos.Userprog.Paging

/-!
# Entries of page tables

A page directory is a table of two levels. Its entry for an address is a word, zero where
there is no page table, and everything that the processor and the kernel see of the
address is read from that word. Each operation on a page changes the word of that page,
and those of no other page, user or kernel.
-/

namespace Pintos

open Function

namespace Paging

open Pintos.Computation Palloc

variable {outer : ℕ} {memory : Memory} {page : Word}

section Addresses

variable {va other : Word}

lemma pdNo_eq (va : Word) : pdNo va = va.toNat / 2 ^ 22 := by
  rw [pdNo, BitVec.toNat_ushiftRight, Nat.shiftRight_eq_div_pow]

lemma ptNo_eq (va : Word) : ptNo va = va.toNat / 2 ^ 12 % 2 ^ 10 :=
  toNat_field va 12 10 (by decide)

lemma pdNo_lt (va : Word) : pdNo va < 1024 := by
  rw [pdNo_eq]
  omega

lemma ptNo_lt (va : Word) : ptNo va < 1024 := by
  rw [ptNo_eq]
  omega

lemma pdNo_lt_of_user (isUser : va < physBase) : pdNo va < 768 := by
  have bound : va.toNat < 0xc0000000 := isUser
  rw [pdNo_eq]
  omega

lemma pgNo_eq_iff : pgNo va = pgNo other ↔ pdNo va = pdNo other ∧ ptNo va = ptNo other := by
  rw [← BitVec.toNat_inj, pgNo_toNat, pgNo_toNat, pdNo_eq, pdNo_eq, ptNo_eq, ptNo_eq]
  omega

def addressAt (outer inner : ℕ) : Word := BitVec.ofNat 32 ((outer * 1024 + inner) * 4096)

section

variable {inner : ℕ} (outerLt : outer < 1024) (innerLt : inner < 1024)

include outerLt innerLt

lemma toNat_addressAt :
  (addressAt outer inner).toNat = (outer * 1024 + inner) * 4096 := by
  rw [addressAt, BitVec.toNat_ofNat, Nat.mod_eq_of_lt (by omega)]

lemma pdNo_addressAt :
  pdNo (addressAt outer inner) = outer := by
  rw [pdNo_eq, toNat_addressAt outerLt innerLt]
  omega

lemma ptNo_addressAt :
  ptNo (addressAt outer inner) = inner := by
  rw [ptNo_eq, toNat_addressAt outerLt innerLt]
  omega

end

lemma pgOfs_toNat (va : Word) : (pgOfs va).toNat = va.toNat % 4096 := by
  have digits := toNat_field va 0 12 (by decide)
  rw [pow_zero, Nat.div_one] at digits
  exact digits

end Addresses

section Entries

lemma Memory.IsPage.frame (isPage : memory.IsPage page) :
  (page - physBase) &&& ~~~pteAddr = 0#32 ∧ page - physBase < physBase ∧
    page - physBase + physBase = page := by
  rcases isPage with ⟨aligned, kernel, _⟩
  have rest : page.toNat % 4096 = 0 := by rw [← pgOfs_toNat, aligned]; rfl
  have number : (page - physBase).toNat = page.toNat - 0xc0000000 := by
    rw [BitVec.toNat_sub_of_le kernel]
    rfl
  refine ⟨?_, ?_, BitVec.sub_add_cancel _ _⟩
  · apply BitVec.eq_of_toNat_eq
    change (pgOfs (page - physBase)).toNat = 0
    rw [pgOfs_toNat]
    omega
  change (page - physBase).toNat < 0xc0000000
  omega

lemma Memory.IsPage.ne_zero (isPage : memory.IsPage page) : page ≠ 0 := by
  rintro rfl
  exact absurd isPage.2.1 (by decide)

lemma Memory.IsPage.or_and_pteAddr (isPage : memory.IsPage page) {flags : Word}
  (apart : flags &&& pteAddr = 0#32) :
  (page - physBase ||| flags) &&& pteAddr = page - physBase := by
  rw [or_and_of_apart apart]
  have cleared := andNot_of_apart isPage.frame.1
  rwa [BitVec.not_not] at cleared

def leads (entry : Word) : Option Word :=
  if entry = 0 then none else some ((entry &&& pteAddr) + physBase)

def frameOf (pte : Word) : Option Word :=
  if pte &&& pteP ≠ 0 then some ((pte &&& pteAddr) + physBase) else none

def pdeOf (pt : Word) : Word := pt - physBase ||| (pteU ||| pteP ||| pteW)

def pteOf (kpage : Word) (writable : Bool) : Word :=
  kpage - physBase ||| (pteP ||| (if writable then pteW else 0) ||| pteU)

lemma pdeOf_present (pt : Word) : pdeOf pt &&& pteP ≠ 0 := by
  rw [pdeOf, or_and_of_within (by decide)]
  decide

lemma pteOf_present (kpage : Word) (writable : Bool) : pteOf kpage writable &&& pteP ≠ 0 := by
  rw [pteOf, or_and_of_within (by cases writable <;> decide)]
  decide

lemma pteOf_writable (kpage : Word) : pteOf kpage true &&& pteW ≠ 0 := by
  rw [pteOf, or_and_of_within (by decide)]
  decide

lemma leads_pdeOf (isPage : memory.IsPage page) : leads (pdeOf page) = some page := by
  have notZero : pdeOf page ≠ 0 := by
    intro isZero
    refine pdeOf_present page ?_
    rw [isZero]
    decide
  rw [leads, if_neg notZero, pdeOf, isPage.or_and_pteAddr (by decide), isPage.frame.2.2]

lemma pteOf_address (isPage : memory.IsPage page) (writable : Bool) :
  pteOf page writable &&& pteAddr = page - physBase :=
  isPage.or_and_pteAddr (by cases writable <;> decide)

lemma frameOf_pteOf (isPage : memory.IsPage page) (writable : Bool) :
  frameOf (pteOf page writable) = some page := by
  rw [frameOf, if_pos (pteOf_present page writable), pteOf_address isPage, isPage.frame.2.2]

lemma frameOf_clear (pte : Word) : frameOf (pte &&& ~~~pteP) = none := by
  rw [frameOf, andNot_and_self]
  simp

lemma frameOf_setFlag (pte : Word) {flag : Word} (notPresent : flag &&& pteP = 0#32)
  (notAddress : flag &&& pteAddr = 0#32) (value : Bool) :
  frameOf (if value then pte ||| flag else pte &&& ~~~flag) = frameOf pte := by
  cases value with
  | true =>
    simp only [if_true]
    rw [frameOf, or_and_of_apart notPresent, or_and_of_apart notAddress, ← frameOf]
  | false =>
    simp only [Bool.false_eq_true, if_false]
    rw [frameOf, andNot_and_of_apart notPresent, andNot_and_of_apart notAddress, ← frameOf]

end Entries

section Primitives

variable {Value : Type}

lemma assert_bind {condition : Prop} [Decidable condition] (holds : condition)
  (next : Unit → Pager Value) (memory : Memory) :
  (assert condition >>= next) memory = next () memory := by
  rw [assert, if_pos holds]
  rfl

lemma load_bind (page : Word) (index : ℕ) (next : Word → Pager Value) (memory : Memory) :
  (load page index >>= next) memory = next (memory.tables page index) memory := rfl

lemma vtop_page (isPage : memory.IsPage page) :
  vtop page memory = .ok (page - physBase, memory) := by
  rw [vtop, assert_bind isPage.2.1]
  rfl

lemma ptov_of_lt {paddr : Word} (low : paddr < physBase) (memory : Memory) :
  ptov paddr memory = .ok (paddr + physBase, memory) := by
  rw [ptov, assert_bind low]
  rfl

lemma pdeCreate_page (isPage : memory.IsPage page) :
  pdeCreate page memory = .ok (pdeOf page, memory) := by
  rw [pdeCreate, assert_bind isPage.1, bind_of_ok (vtop_page isPage), pdeOf, ← BitVec.or_assoc,
    ← BitVec.or_assoc]
  rfl

lemma pdeGetPt_pdeOf (isPage : memory.IsPage page) :
  pdeGetPt (pdeOf page) memory = .ok (page, memory) := by
  rw [pdeGetPt, assert_bind (pdeOf_present page), pdeOf, isPage.or_and_pteAddr (by decide),
    ptov_of_lt isPage.frame.2.1, isPage.frame.2.2]

lemma pteCreateUser_page (isPage : memory.IsPage page) (writable : Bool) :
  pteCreateUser page writable memory = .ok (pteOf page writable, memory) := by
  have creates : pteCreateKernel page writable memory =
      .ok (page - physBase ||| pteP ||| (if writable then pteW else 0), memory) := by
    rw [pteCreateKernel, assert_bind isPage.1, bind_of_ok (vtop_page isPage)]
    rfl
  rw [pteCreateUser, bind_of_ok creates, pteOf, ← BitVec.or_assoc, ← BitVec.or_assoc]
  rfl

def Memory.Offers (memory : Memory) (page : Word) : Prop :=
  memory.answers 0 = some page ∧ memory.IsPage page ∧ memory.inUse page = false

lemma pallocGetPage_cases (zero : Bool) (memory : Memory) :
  (¬∃ page, memory.Offers page) ∧ pallocGetPage zero memory =
      .ok (none, { memory with answers := fun request => memory.answers (request + 1) }) ∨
    ∃ page, memory.Offers page ∧
      pallocGetPage zero memory =
        .ok (some page,
          { memory with
            answers := fun request => memory.answers (request + 1)
            inUse := update memory.inUse page true
            tables := if zero then update memory.tables page fun _ => 0
              else memory.tables
            bytes := if zero then update memory.bytes page fun _ => 0
              else memory.bytes }) := by
  unfold pallocGetPage Memory.Offers
  cases memory.answers 0 with
  | none => exact Or.inl ⟨by simp, rfl⟩
  | some page =>
    by_cases isFree : memory.IsPage page ∧ memory.inUse page = false
    · exact Or.inr ⟨page, ⟨rfl, isFree⟩, if_pos isFree⟩
    refine Or.inl ⟨?_, if_neg isFree⟩
    rintro ⟨found, isFound, isOffered⟩
    cases isFound
    exact isFree isOffered

lemma pallocFreePage_used (isPage : memory.IsPage page) (used : memory.inUse page = true) :
  pallocFreePage page memory =
    .ok ((),
      { memory with
        inUse := update memory.inUse page false
        tables := update memory.tables page fun _ => 0xcccccccc
        bytes := update memory.bytes page fun _ => 0xcc
        freed := memory.freed ++ [page] }) := by
  rw [pallocFreePage, if_neg (not_not.mpr isPage.1), if_neg isPage.ne_zero, if_pos ⟨isPage, used⟩]

end Primitives

structure Memory.Grows (memory after : Memory) : Prop where
  initRamPages_eq : after.initRamPages = memory.initRamPages
  initPageDir_eq : after.initPageDir = memory.initPageDir
  inUse : ∀ page, memory.inUse page = true → after.inUse page = true
  bytes_eq : ∀ page, memory.inUse page = true → after.bytes page = memory.bytes page
  freed_eq : after.freed = memory.freed

instance : IsPreorder Memory Memory.Grows where
  refl _ := ⟨rfl, rfl, fun _ => id, fun _ _ => rfl, rfl⟩
  trans _ _ _ first second :=
    ⟨second.initRamPages_eq.trans first.initRamPages_eq,
      second.initPageDir_eq.trans first.initPageDir_eq,
      fun page used => second.inUse page (first.inUse page used),
      fun page used => (second.bytes_eq page (first.inUse page used)).trans
        (first.bytes_eq page used),
      second.freed_eq.trans first.freed_eq⟩

variable {after : Memory}

lemma Memory.Grows.isPage_iff (grows : memory.Grows after) (page : Word) :
  after.IsPage page ↔ memory.IsPage page := by
  unfold Memory.IsPage
  rw [grows.initRamPages_eq]

lemma pallocGetPage_eq_some {zero : Bool}
  (returned : pallocGetPage zero memory = .ok (some page, after)) :
  memory.Offers page ∧ memory.Grows after ∧ after.inUse page = true ∧
    (∀ other, other ≠ page → after.tables other = memory.tables other) ∧
    (zero = false → after.bytes = memory.bytes) := by
  rcases pallocGetPage_cases zero memory with ⟨_, gets⟩ | ⟨found, offers, gets⟩
  · rw [gets] at returned
    cases returned
  rw [gets] at returned
  cases returned
  have notFree : ∀ other, memory.inUse other = true → other ≠ page := by
    rintro other used rfl
    rw [offers.2.2] at used
    cases used
  refine ⟨offers, ⟨rfl, rfl, ?_, ?_, rfl⟩, update_self _ _ _, ?_, ?_⟩
  · intro other used
    exact (update_of_ne (notFree other used) _ _).trans used
  · intro other used
    cases zero with
    | false => rfl
    | true => exact update_of_ne (notFree other used) _ _
  · intro other differs
    cases zero with
    | false => rfl
    | true => exact update_of_ne differs _ _
  rintro rfl
  rfl

/-- A page directory: its entries are zero or lead to page tables of their own, and the entries of
user page tables have addresses of physical memory. -/
structure Directory (memory : Memory) (pd : Word) : Prop where
  page : memory.IsPage pd
  used : memory.inUse pd = true
  notInit : pd ≠ memory.initPageDir
  table : ∀ index, index < 1024 → memory.tables pd index ≠ 0 → ∃ pt, memory.IsPage pt ∧
    memory.inUse pt = true ∧ memory.tables pd index = pdeOf pt
  separate : TwoLevel.Separate leads memory.tables pd 1024
  frame : ∀ outer inner pte, outer < 768 →
    TwoLevel.entryAt leads memory.tables pd outer inner = some pte → pte &&& pteAddr < physBase

def Memory.pte (memory : Memory) (pd va : Word) : Word :=
  (TwoLevel.entryAt leads memory.tables pd (pdNo va) (ptNo va)).getD 0

structure Undisturbed (pd : Word) (before after : Memory) : Prop where
  initRamPages_eq : after.initRamPages = before.initRamPages
  initPageDir_eq : after.initPageDir = before.initPageDir
  used : after.inUse pd = true
  root : after.tables pd = before.tables pd
  table : ∀ index pt, index < 1024 → leads (before.tables pd index) = some pt →
    after.inUse pt = true ∧ after.tables pt = before.tables pt

namespace Directory

variable {pd va pt : Word} {index : ℕ}

lemma leads_eq_none (isEmpty : memory.tables pd (pdNo va) = 0) :
  leads (memory.tables pd (pdNo va)) = none := by
  rw [leads, if_pos isEmpty]

lemma leads_eq_some (directory : Directory memory pd) (indexLt : index < 1024)
  (notEmpty : memory.tables pd index ≠ 0) :
  ∃ pt, memory.IsPage pt ∧ memory.inUse pt = true ∧ memory.tables pd index = pdeOf pt ∧
    leads (memory.tables pd index) = some pt := by
  rcases directory.table index indexLt notEmpty with ⟨pt, isPage, used, isPde⟩
  exact ⟨pt, isPage, used, isPde, by rw [isPde, leads_pdeOf isPage]⟩

lemma table_of_leads (directory : Directory memory pd) (indexLt : index < 1024)
  (isTable : leads (memory.tables pd index) = some pt) :
  memory.IsPage pt ∧ memory.inUse pt = true := by
  have notEmpty : memory.tables pd index ≠ 0 := by
    intro isEmpty
    rw [isEmpty] at isTable
    cases isTable
  rcases directory.leads_eq_some indexLt notEmpty with ⟨found, isPage, used, _, leadsTo⟩
  rw [leadsTo] at isTable
  cases isTable
  exact ⟨isPage, used⟩

lemma pte_of_leads (isTable : leads (memory.tables pd (pdNo va)) = some pt) :
  memory.pte pd va = memory.tables pt (ptNo va) := by
  rw [Memory.pte, TwoLevel.entryAt_of_leads isTable, Option.getD_some]

lemma pte_of_empty (isEmpty : memory.tables pd (pdNo va) = 0) : memory.pte pd va = 0 := by
  rw [Memory.pte, TwoLevel.entryAt, leads_eq_none isEmpty]
  rfl

lemma frame_lt (directory : Directory memory pd) (isUser : va < physBase) :
  memory.pte pd va &&& pteAddr < physBase := by
  rw [Memory.pte]
  cases isEntry : TwoLevel.entryAt leads memory.tables pd (pdNo va) (ptNo va) with
  | none =>
    decide
  | some pte => exact directory.frame _ _ pte (pdNo_lt_of_user isUser) isEntry

lemma entryOf_eq (isPage : memory.IsPage pt) (isPde : memory.tables pd (pdNo va) = pdeOf pt) :
  entryOf pd va memory = .ok (some (pt, ptNo va), memory) := by
  rw [entryOf, load_bind, isPde, bind_of_ok (pdeGetPt_pdeOf isPage)]
  rfl

lemma lookupPage_false (directory : Directory memory pd) (va : Word) :
  lookupPage pd va false memory =
    .ok ((leads (memory.tables pd (pdNo va))).map fun pt => (pt, ptNo va), memory) := by
  rw [lookupPage, assert_bind directory.page.ne_zero, assert_bind (Or.inl rfl), load_bind]
  by_cases isEmpty : memory.tables pd (pdNo va) = 0
  · rw [if_pos isEmpty, leads_eq_none isEmpty]
    rfl
  rcases directory.leads_eq_some (pdNo_lt va) isEmpty with ⟨pt, isPage, _, isPde, isTable⟩
  rw [if_neg isEmpty, entryOf_eq isPage isPde, isTable]
  rfl

def attached (memory : Memory) (pd : Word) (outer : ℕ) (pt : Word) : Memory :=
  { memory with
    answers := fun request => memory.answers (request + 1)
    inUse := Function.update memory.inUse pt true
    tables := TwoLevel.attach memory.tables pd outer (pdeOf pt) pt 0
    bytes := Function.update memory.bytes pt fun _ => 0 }

section Attached

variable (directory : Directory memory pd) (isPage : memory.IsPage pt)
  (isFree : memory.inUse pt = false)

include isFree in
lemma grows_attached : memory.Grows (attached memory pd outer pt) := by
  have notFree : ∀ page, memory.inUse page = true → page ≠ pt := by
    rintro page used rfl
    rw [isFree] at used
    cases used
  refine ⟨rfl, rfl, ?_, ?_, rfl⟩
  · intro page used
    exact (update_of_ne (notFree page used) _ _).trans used
  intro page used
  exact update_of_ne (notFree page used) _ _

include directory isFree

lemma free_ne : pt ≠ pd := by
  rintro rfl
  rw [directory.used] at isFree
  cases isFree

lemma free_not_led (indexLt : index < 1024) : leads (memory.tables pd index) ≠ some pt := by
  intro isTable
  rw [(directory.table_of_leads indexLt isTable).2] at isFree
  cases isFree

include isPage

lemma pte_attached (isEmpty : memory.tables pd (pdNo va) = 0) (other : Word) :
  (attached memory pd (pdNo va) pt).pte pd other = memory.pte pd other := by
  have notRoot := free_ne directory isFree
  by_cases same : pdNo other = pdNo va
  · have otherEmpty : memory.tables pd (pdNo other) = 0 := by rw [same, isEmpty]
    rw [pte_of_empty otherEmpty, Memory.pte, same]
    change (TwoLevel.entryAt leads (TwoLevel.attach _ _ _ _ _ _) _ _ _).getD 0 = 0
    rw [TwoLevel.entryAt_attach_self (leads_pdeOf isPage) notRoot, Option.getD_some]
  exact congrArg (Option.getD · 0) (TwoLevel.entryAt_attach_of_ne (leads_pdeOf isPage) notRoot
    (fun index => free_not_led directory isFree) directory.separate (pdNo_lt other) same _)

lemma directory_attached (outerLt : outer < 1024) :
  Directory (attached memory pd outer pt) pd := by
  have notRoot := free_ne directory isFree
  have grows : memory.Grows (attached memory pd outer pt) := grows_attached isFree
  have root : (attached memory pd outer pt).tables pd =
      update (memory.tables pd) outer (pdeOf pt) := TwoLevel.attach_root notRoot
  refine ⟨(grows.isPage_iff pd).mpr directory.page, grows.inUse pd directory.used,
    directory.notInit, ?_, directory.separate.attach (leads_pdeOf isPage) notRoot
      (fun index => free_not_led directory isFree), ?_⟩
  · intro index indexLt notEmpty
    rw [root] at notEmpty ⊢
    by_cases same : index = outer
    · subst same
      exact ⟨pt, (grows.isPage_iff pt).mpr isPage, update_self _ _ _, update_self _ _ _⟩
    rw [update_of_ne same] at notEmpty ⊢
    rcases directory.table index indexLt notEmpty with ⟨found, foundPage, used, isPde⟩
    exact ⟨found, (grows.isPage_iff found).mpr foundPage, grows.inUse found used, isPde⟩
  intro other inner pte otherLt isEntry
  have found : TwoLevel.entryAt leads (TwoLevel.attach memory.tables pd outer (pdeOf pt) pt 0) pd
      other inner = some pte := isEntry
  by_cases same : other = outer
  · subst same
    rw [TwoLevel.entryAt_attach_self (leads_pdeOf isPage) notRoot] at found
    cases found
    decide
  rw [TwoLevel.entryAt_attach_of_ne (leads_pdeOf isPage) notRoot
    (fun index => free_not_led directory isFree) directory.separate (by omega) same] at found
  exact directory.frame other inner pte otherLt found

end Attached

lemma lookupPage_true (directory : Directory memory pd) (isUser : va < physBase) :
  (¬(memory.tables pd (pdNo va) ≠ 0 ∨ ∃ page, memory.Offers page) ∧
      ∃ after, lookupPage pd va true memory = .ok (none, after) ∧
        after.tables = memory.tables ∧ memory.Grows after) ∨
    (memory.tables pd (pdNo va) ≠ 0 ∨ ∃ page, memory.Offers page) ∧
      ∃ pt after, lookupPage pd va true memory = .ok (some (pt, ptNo va), after) ∧
      Directory after pd ∧ leads (after.tables pd (pdNo va)) = some pt ∧ memory.Grows after ∧
      ∀ other, after.pte pd other = memory.pte pd other := by
  rw [lookupPage, assert_bind directory.page.ne_zero, assert_bind (Or.inr isUser), load_bind]
  by_cases isEmpty : memory.tables pd (pdNo va) = 0
  · simp only [if_pos isEmpty, if_true]
    rcases pallocGetPage_cases true memory with ⟨noOffer, gets⟩ | ⟨pt, offers, gets⟩
    · rw [bind_of_ok gets]
      refine Or.inl ⟨by simp [isEmpty, noOffer], _, rfl, rfl, rfl, rfl,
        fun _ => id, fun _ _ => rfl, rfl⟩
    have isPage := offers.2.1
    have isFree := offers.2.2
    have grows : memory.Grows (attached memory pd (pdNo va) pt) := grows_attached isFree
    have directoryAfter := directory_attached directory isPage isFree (pdNo_lt va)
    have root : (attached memory pd (pdNo va) pt).tables pd (pdNo va) = pdeOf pt := by
      change TwoLevel.attach memory.tables pd (pdNo va) (pdeOf pt) pt 0 pd (pdNo va) = pdeOf pt
      rw [TwoLevel.attach_root (free_ne directory isFree), update_self]
    refine Or.inr ⟨Or.inr ⟨pt, offers⟩, pt, attached memory pd (pdNo va) pt, ?_, directoryAfter, ?_,
      grows, pte_attached directory isPage isFree isEmpty⟩
    · rw [bind_of_ok gets]
      refine (bind_of_ok (pdeCreate_page (by exact isPage))).trans ?_
      exact entryOf_eq isPage root
    · rw [root, leads_pdeOf isPage]
  rcases directory.leads_eq_some (pdNo_lt va) isEmpty with ⟨pt, isPage, _, isPde, isTable⟩
  rw [if_neg isEmpty]
  exact Or.inr ⟨Or.inl isEmpty, pt, memory, entryOf_eq isPage isPde, directory, isTable,
    Std.Refl.refl _, fun _ => rfl⟩

section Stored

variable {word : Word} (directory : Directory memory pd) (isUser : va < physBase)
  (isTable : leads (memory.tables pd (pdNo va)) = some pt)

include directory isTable

lemma pte_stored (other : Word) :
  ({ memory with tables := TwoLevel.store memory.tables pt (ptNo va) word } : Memory).pte pd other =
    if pgNo other = pgNo va then word else memory.pte pd other := by
  split
  · next same =>
      rcases pgNo_eq_iff.mp same with ⟨sameOuter, sameInner⟩
      rw [Memory.pte, sameOuter, sameInner]
      exact congrArg (Option.getD · 0)
        (TwoLevel.entryAt_store_self directory.separate (pdNo_lt va) isTable)
  next differs =>
    refine congrArg (Option.getD · 0) (TwoLevel.entryAt_store_of_ne directory.separate
      (pdNo_lt va) isTable (pdNo_lt other) ?_)
    by_contra both
    exact differs (pgNo_eq_iff.mpr (by tauto))

lemma directory_stored (isFrame : word &&& pteAddr < physBase) :
  Directory { memory with tables := TwoLevel.store memory.tables pt (ptNo va) word } pd := by
  have root : TwoLevel.store memory.tables pt (ptNo va) word pd = memory.tables pd :=
    TwoLevel.store_leaf_root directory.separate (pdNo_lt va) isTable
  refine ⟨directory.page, directory.used, directory.notInit, ?_, directory.separate.congr root, ?_⟩
  · intro index indexLt notEmpty
    change TwoLevel.store memory.tables pt (ptNo va) word pd index ≠ 0 at notEmpty
    change ∃ found, _ ∧ _ ∧ TwoLevel.store memory.tables pt (ptNo va) word pd index = _
    rw [root] at notEmpty ⊢
    exact directory.table index indexLt notEmpty
  intro outer inner pte outerLt isEntry
  have found : TwoLevel.entryAt leads (TwoLevel.store memory.tables pt (ptNo va) word) pd outer
      inner = some pte := isEntry
  by_cases same : outer = pdNo va ∧ inner = ptNo va
  · rw [same.1, same.2, TwoLevel.entryAt_store_self directory.separate (pdNo_lt va) isTable]
      at found
    cases found
    exact isFrame
  rw [TwoLevel.entryAt_store_of_ne directory.separate (pdNo_lt va) isTable (by omega)
    (by tauto)] at found
  exact directory.frame outer inner pte outerLt found

end Stored

section

variable (directory : Directory memory pd)
include directory

lemma of_undisturbed {after : Memory} (undisturbed : Undisturbed pd memory after) :
  Directory after pd ∧ ∀ va, after.pte pd va = memory.pte pd va := by
  have isPage_iff : ∀ page, after.IsPage page ↔ memory.IsPage page := by
    intro page
    unfold Memory.IsPage
    rw [undisturbed.initRamPages_eq]
  have sameEntry : ∀ outer inner, outer < 1024 →
      TwoLevel.entryAt leads after.tables pd outer inner =
        TwoLevel.entryAt leads memory.tables pd outer inner := by
    intro outer inner outerLt
    exact TwoLevel.entryAt_congr undisturbed.root
      (fun pt isTable => (undisturbed.table outer pt outerLt isTable).2) inner
  refine ⟨⟨(isPage_iff pd).mpr directory.page, undisturbed.used, ?_, ?_,
    directory.separate.congr undisturbed.root, ?_⟩, ?_⟩
  · rw [undisturbed.initPageDir_eq]
    exact directory.notInit
  · rw [undisturbed.root]
    intro index indexLt notEmpty
    rcases directory.leads_eq_some indexLt notEmpty with ⟨pt, isPage, _, isPde, isTable⟩
    exact ⟨pt, (isPage_iff pt).mpr isPage, (undisturbed.table index pt indexLt isTable).1, isPde⟩
  · intro outer inner pte outerLt isEntry
    rw [sameEntry outer inner (by omega)] at isEntry
    exact directory.frame outer inner pte outerLt isEntry
  intro va
  rw [Memory.pte, Memory.pte, sameEntry _ _ (pdNo_lt va)]

lemma of_used (grows : memory.Grows after)
  (sameTables : ∀ page, memory.inUse page = true → after.tables page = memory.tables page) :
  Directory after pd ∧ ∀ va, after.pte pd va = memory.pte pd va := by
  refine directory.of_undisturbed ⟨grows.initRamPages_eq, grows.initPageDir_eq,
    grows.inUse pd directory.used, sameTables pd directory.used, ?_⟩
  intro index pt indexLt isTable
  have used := (directory.table_of_leads indexLt isTable).2
  exact ⟨grows.inUse pt used, sameTables pt used⟩

lemma of_bytes (bytes : Word → ℕ → Byte) : Directory { memory with bytes := bytes } pd :=
  ⟨directory.page, directory.used, directory.notInit, directory.table, directory.separate,
    directory.frame⟩

lemma lookup_cases (va : Word) :
  (lookupPage pd va false memory = .ok (none, memory) ∧ memory.pte pd va = 0) ∨
    ∃ pt, lookupPage pd va false memory = .ok (some (pt, ptNo va), memory) ∧
      leads (memory.tables pd (pdNo va)) = some pt ∧
      memory.pte pd va = memory.tables pt (ptNo va) := by
  rw [directory.lookupPage_false]
  by_cases isEmpty : memory.tables pd (pdNo va) = 0
  · rw [leads_eq_none isEmpty]
    exact Or.inl ⟨rfl, pte_of_empty isEmpty⟩
  rcases directory.leads_eq_some (pdNo_lt va) isEmpty with ⟨pt, _, _, _, isTable⟩
  rw [isTable]
  exact Or.inr ⟨pt, rfl, rfl, pte_of_leads isTable⟩

end

lemma pte_congr (memory : Memory) (pd : Word) {other : Word} (same : pgNo other = pgNo va) :
  memory.pte pd other = memory.pte pd va := by
  rcases pgNo_eq_iff.mp same with ⟨sameOuter, sameInner⟩
  rw [Memory.pte, Memory.pte, sameOuter, sameInner]

lemma pte_unchanged (memory : Memory) (pd va other : Word) :
  memory.pte pd other = if pgNo other = pgNo va then memory.pte pd va else memory.pte pd other := by
  split
  · next same => exact pte_congr memory pd same
  · rfl

lemma grows_stored (memory : Memory) (pt : Word) (index : ℕ) (word : Word) :
  memory.Grows { memory with tables := TwoLevel.store memory.tables pt index word } :=
  ⟨rfl, rfl, fun _ => id, fun _ _ => rfl, rfl⟩

section

variable (directory : Directory memory pd)
include directory

lemma pagedirGetPage_eq (isUser : va < physBase) : pagedirGetPage pd va memory =
    .ok ((frameOf (memory.pte pd va)).map fun page => page + pgOfs va, memory) := by
  rw [pagedirGetPage, assert_bind isUser]
  rcases directory.lookup_cases va with ⟨looked, isZero⟩ | ⟨pt, looked, _, isEntry⟩
  · rw [bind_of_ok looked, isZero]
    rfl
  rw [bind_of_ok looked]
  have isFrame := directory.frame_lt isUser
  rw [isEntry] at isFrame ⊢
  simp only [load_bind, frameOf]
  split
  · exact bind_of_ok (ptov_of_lt isFrame memory)
  · rfl

lemma pagedirSetPage_eq {upage kpage : Word}
  (aligned : pgOfs upage = 0) (isUser : upage < physBase) (isPage : memory.IsPage kpage)
  (unmapped : frameOf (memory.pte pd upage) = none) (writable : Bool) :
  ∃ result after, pagedirSetPage pd upage kpage writable memory = .ok (result, after) ∧
    Directory after pd ∧ memory.Grows after ∧
    (result = true ↔ memory.tables pd (pdNo upage) ≠ 0 ∨ ∃ page, memory.Offers page) ∧
    ∀ other, after.pte pd other =
      if result = true ∧ pgNo other = pgNo upage then pteOf kpage writable
      else memory.pte pd other := by
  rw [pagedirSetPage, assert_bind aligned, assert_bind isPage.1, assert_bind isUser,
    bind_of_ok (vtop_page isPage), reads_bind_apply]
  simp only [id]
  rw [assert_bind isPage.2.2, assert_bind directory.notInit]
  rcases directory.lookupPage_true isUser with
    ⟨noTable, after, looked, tables, grows⟩ |
      ⟨hasTable, pt, middle, looked, directoryMiddle, isTable, grows, same⟩
  · rw [bind_of_ok looked]
    refine ⟨false, after, rfl, (directory.of_used grows fun page _ => congrFun tables page).1,
      grows, iff_of_false Bool.false_ne_true noTable, ?_⟩
    intro other
    rw [Memory.pte, tables]
    rfl
  have isEntry := pte_of_leads isTable
  have notPresent : middle.tables pt (ptNo upage) &&& pteP = 0 := by
    rw [← isEntry, same]
    by_contra present
    rw [frameOf, if_pos present] at unmapped
    cases unmapped
  have pageMiddle := (grows.isPage_iff kpage).mpr isPage
  rw [bind_of_ok looked]
  simp only [load_bind]
  rw [assert_bind notPresent, bind_of_ok (pteCreateUser_page pageMiddle writable)]
  refine ⟨true, _, rfl, directory_stored directoryMiddle isTable ?_, ?_,
    iff_of_true rfl hasTable, ?_⟩
  · rw [pteOf_address isPage]
    exact isPage.frame.2.1
  · exact IsTrans.trans _ middle _ grows (grows_stored middle _ _ _)
  intro other
  rw [directoryMiddle.pte_stored isTable, same]
  simp

lemma pagedirClearPage_eq {upage : Word} (aligned : pgOfs upage = 0) (isUser : upage < physBase) :
  ∃ after, pagedirClearPage pd upage memory = .ok ((), after) ∧ Directory after pd ∧
    memory.Grows after ∧
    ∀ other, after.pte pd other =
      if pgNo other = pgNo upage then memory.pte pd upage &&& ~~~pteP
      else memory.pte pd other := by
  have unchanged : memory.pte pd upage &&& pteP = 0 → ∀ other, memory.pte pd other =
      if pgNo other = pgNo upage then memory.pte pd upage &&& ~~~pteP
      else memory.pte pd other := by
    intro absent other
    rw [andNot_of_apart absent]
    exact pte_unchanged memory pd upage other
  rw [pagedirClearPage, assert_bind aligned, assert_bind isUser]
  rcases directory.lookup_cases upage with ⟨looked, isZero⟩ | ⟨pt, looked, isTable, isEntry⟩
  · rw [bind_of_ok looked]
    refine ⟨memory, rfl, directory, Std.Refl.refl _, unchanged ?_⟩
    rw [isZero]
    exact BitVec.zero_and
  rw [bind_of_ok looked]
  simp only [load_bind]
  split
  · refine ⟨_, rfl, directory_stored directory isTable ?_, grows_stored memory _ _ _, ?_⟩
    · rw [← isEntry, andNot_and_of_apart (by decide)]
      exact directory.frame_lt isUser
    intro other
    rw [directory.pte_stored isTable, isEntry]
  next absent =>
    refine ⟨memory, rfl, directory, Std.Refl.refl _, unchanged ?_⟩
    rw [isEntry]
    exact not_not.mp absent

lemma pagedirSetFlag_eq {flag vpage : Word} (isUser : vpage < physBase)
  (notPresent : flag &&& pteP = 0#32) (notAddress : flag &&& pteAddr = 0#32) (value : Bool) :
  ∃ after word, pagedirSetFlag flag pd vpage value memory = .ok ((), after) ∧
    Directory after pd ∧ memory.Grows after ∧ frameOf word = frameOf (memory.pte pd vpage) ∧
    ∀ other, after.pte pd other =
      if pgNo other = pgNo vpage then word else memory.pte pd other := by
  rw [pagedirSetFlag]
  rcases directory.lookup_cases vpage with ⟨looked, isZero⟩ | ⟨pt, looked, isTable, isEntry⟩
  · rw [bind_of_ok looked]
    exact ⟨memory, _, rfl, directory, Std.Refl.refl _, rfl, pte_unchanged memory pd vpage⟩
  rw [bind_of_ok looked]
  refine ⟨_, _, rfl, directory_stored directory isTable ?_, grows_stored memory _ _ _, ?_,
    fun other => directory.pte_stored isTable other⟩
  · have isFrame := directory.frame_lt isUser
    rw [isEntry] at isFrame
    cases value with
    | true => simpa only [if_true, or_and_of_apart notAddress] using isFrame
    | false =>
      simpa only [Bool.false_eq_true, if_false, andNot_and_of_apart notAddress] using isFrame
  rw [isEntry]
  exact frameOf_setFlag _ notPresent notAddress value

end

end Directory

end Paging

end Pintos
