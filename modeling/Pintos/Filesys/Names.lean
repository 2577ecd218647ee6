import Pintos.Filesys.Directory

/-!
# Files by name

`filesys_open`, `filesys_create` and `filesys_remove` of `filesys/filesys.c`, and
`get_dir` of `userprog/syscall.c`, through which `filesys_remove` and `chdir`
resolve a path. The current directory of the calling thread is an argument; a
null pointer is `none`.

`get_dir` hands `dir_lookup` a `struct inode *` where it expects a
`struct inode **`. The address of the inode that was opened goes into the first
word of a zero-filled inode, and the directory `get_dir` continues with is that
zero-filled inode. It receives its address in the model when it is first used.
-/

namespace Pintos

open Pintos.Computation

def slash : Byte := 47

def pathTokens (path : List Byte) : List (List Byte) :=
  (path.splitOn slash).filter (· ≠ [])

variable {character : Byte} {fuel : ℕ} {currentDir : Option Dir} {name : List Byte}
  {initSize : ℤ}

lemma mem_of_mem_splitOnP {path part : List Byte} {isSlash : Byte → Bool}
  (isPart : part ∈ path.splitOnP isSlash) (mem : character ∈ part) : character ∈ path := by
  induction path generalizing part with
  | nil =>
    rw [List.splitOnP_nil, List.mem_singleton] at isPart
    rwa [isPart] at mem
  | cons first rest ih =>
    rw [List.splitOnP_cons_eq_if_modifyHead] at isPart
    split at isPart
    · rcases List.mem_cons.mp isPart with rfl | later
      · cases mem
      · exact List.mem_cons_of_mem _ (ih later mem)
    cases parts : rest.splitOnP isSlash with
    | nil =>
      rw [parts] at isPart
      cases isPart
    | cons head tail =>
      rw [parts] at isPart
      rcases List.mem_cons.mp isPart with rfl | later
      · rcases List.mem_cons.mp mem with rfl | inHead
        · exact List.mem_cons_self
        · exact List.mem_cons_of_mem _ (ih (parts ▸ List.mem_cons_self) inHead)
      · exact List.mem_cons_of_mem _ (ih (parts ▸ List.mem_cons_of_mem _ later) mem)

lemma mem_of_mem_pathTokens {path token : List Byte} (isToken : token ∈ pathTokens path)
  (mem : character ∈ token) : character ∈ path :=
  mem_of_mem_splitOnP (List.mem_of_mem_filter isToken) mem

def filesysOpen (fuel : ℕ) (name : List Byte) : Kernel (Option File) := do
  let root ← dirOpenRoot fuel
  match root with
  | none => if name = [slash] then stop .fault else stop .panic
  | some dir =>
    if name = [slash] then fileOpen fuel (some dir.inode)
    else do
      let inode ← dirLookup fuel dir (if name.head? = some slash then name.tail else name)
      dirClose fuel (some dir)
      fileOpen fuel inode

/-- The directory `filesys_create` adds an entry to, and the name of the entry: the first two
files go to the root directory, later ones to the current directory. -/
def filesysCreateEntry (fuel : ℕ) (currentDir : Option Dir) (name : List Byte) :
    Kernel (Option Dir × List Byte) := do
  let i ← reads Fs.i
  if i ≤ 1 then do
    let dir ← dirOpenRoot fuel
    pure (dir, name)
  else
    match (pathTokens name).getLast? with
    | none => stop .fault
    | some last => pure (currentDir, last)

lemma filesysCreateEntry_later {fs : Fs} (later : 2 ≤ fs.i) :
  filesysCreateEntry fuel currentDir name fs =
    match (pathTokens name).getLast? with
    | none => .error .fault
    | some last => .ok ((currentDir, last), fs) := by
  have notFirst : ¬ fs.i ≤ 1 := by omega
  unfold filesysCreateEntry
  rw [reads_bind_apply, if_neg notFirst]
  cases (pathTokens name).getLast? with
  | none => rfl
  | some last => rfl

/-- The operands of `filesys_create` before `dir_add`: a directory, a sector, and an inode in it. -/
def filesysCreateInode (fuel : ℕ) (dir : Option Dir) (initialSize : ℤ) :
    Kernel (Option (Dir × Word)) :=
  match dir with
  | none => pure none
  | some dir => do
    let inodeSector ← freeMapAllocate fuel 1
    match inodeSector with
    | none => pure none
    | some inodeSector => do
      let created ← inodeCreate fuel inodeSector initialSize
      pure (if created then some (dir, inodeSector) else none)

def filesysCreate (fuel : ℕ) (currentDir : Option Dir) (name : List Byte) (initialSize : ℤ) :
    Kernel Bool := do
  let i ← reads Fs.i
  let (dir, entry) ← filesysCreateEntry fuel currentDir name
  let ready ← filesysCreateInode fuel dir initialSize
  let success ← match ready with
    | none => pure false
    | some (dir, inodeSector) => dirAdd fuel dir entry inodeSector
  if i ≤ 1 then updates fun fs => { fs with i := fs.i + 1 } else pure ()
  pure success

lemma filesysCreate_eq_ok {success : Bool} {fs after : Fs}
  (ran : filesysCreate fuel currentDir name initSize fs = .ok (success, after)) :
  ∃ dir entry first ready mid last,
    filesysCreateEntry fuel currentDir name fs = .ok ((dir, entry), first) ∧
    filesysCreateInode fuel dir initSize first = .ok (ready, mid) ∧
    ((ready = none ∧ success = false ∧ last = mid) ∨
      ∃ res, ready = some res ∧
        dirAdd fuel res.1 entry res.2 mid = .ok (success, last)) ∧
    after = if fs.i ≤ 1 then { last with i := last.i + 1 } else last := by
  unfold filesysCreate at ran
  rw [reads_bind_apply] at ran
  rcases bind_eq_ok ran with ⟨⟨dir, entry⟩, first, entering, creating⟩
  rcases bind_eq_ok creating with ⟨ready, mid, creatingIno, adding⟩
  cases ready with
  | none =>
    refine ⟨dir, entry, first, none, mid, mid, entering, creatingIno, ?_⟩
    simp only [pure_bind_apply] at adding
    split at adding
    · next early =>
        cases adding
        exact ⟨Or.inl ⟨rfl, rfl, rfl⟩, (if_pos early).symm⟩
    next late =>
      cases adding
      exact ⟨Or.inl ⟨rfl, rfl, rfl⟩, (if_neg late).symm⟩
  | some res =>
    rcases bind_eq_ok adding with ⟨added, last, addingEntry, finishing⟩
    refine ⟨dir, entry, first, some res, mid, last, entering, creatingIno, ?_⟩
    split at finishing
    · next early =>
        cases finishing
        exact ⟨Or.inr ⟨res, rfl, addingEntry⟩, (if_pos early).symm⟩
    next late =>
      cases finishing
      exact ⟨Or.inr ⟨res, rfl, addingEntry⟩, (if_neg late).symm⟩

lemma filesysCreate_true {fs after : Fs}
  (ran : filesysCreate fuel currentDir name initSize fs = .ok (true, after)) :
  ∃ dir entry first res mid last,
    filesysCreateEntry fuel currentDir name fs = .ok ((dir, entry), first) ∧
    filesysCreateInode fuel dir initSize first = .ok (some res, mid) ∧
    dirAdd fuel res.1 entry res.2 mid = .ok (true, last) ∧
    after = if fs.i ≤ 1 then { last with i := last.i + 1 } else last := by
  rcases filesysCreate_eq_ok ran with
    ⟨dir, entry, first, ready, mid, last, entering, creating, added, isAfter⟩
  rcases added with ⟨_, impossible, _⟩ | ⟨res, rfl, adding⟩
  · cases impossible
  · exact ⟨dir, entry, first, res, mid, last, entering, creating, adding, isAfter⟩

/-- What `get_dir` returns: the directory `bad_dir`, or a pointer to another one. -/
inductive FoundDir
  | bad
  | found (dir : Option Dir)
deriving DecidableEq

def callocedInode : Inode where
  sector := 0
  openCnt := 0
  removed := false
  denyWriteCnt := 0
  data := .zeroed

/-- The address of a new inode that is not on `open_inodes`. -/
def callocInode : Kernel ℕ := do
  let address ← reads Fs.nextInode
  updates fun fs => { fs.setInode address callocedInode with nextInode := fs.nextInode + 1 }
  pure address

/-- The loop of `get_dir` over the components that are left; `curInode` says whether the memory
for the inode could be allocated. -/
def getDirLoop (fuel : ℕ) (curInode : Bool) : List (List Byte) → Option Dir → Kernel FoundDir
  | [], currDir => pure (.found currDir)
  | _ :: _, none => stop .panic
  | token :: rest, some currDir => do
    let found ← dirLookup fuel currDir token
    if curInode then
      match found with
      | none => pure .bad
      | some _ => do
        let address ← callocInode
        let next ← dirOpen fuel (some address)
        getDirLoop fuel curInode rest next
    else
      stop .fault

def getDir (fuel : ℕ) (currentDir : Option Dir) (dir : List Byte) : Kernel FoundDir := do
  let badDir ← malloc
  if badDir then do
    let currDir ← if dir.head? = some slash then dirOpenRoot fuel else pure currentDir
    let curInode ← malloc
    getDirLoop fuel curInode (pathTokens dir) currDir
  else
    stop .fault

/-- `filesys_remove`. `dir_open` clears the flag `empty`, so only the current directory can have it
set. -/
def filesysRemove (fuel : ℕ) (currentDir : Option Dir) (path : List Byte) : Kernel Bool :=
  if path = [slash] then pure false
  else do
    let dir ← getDir fuel currentDir path
    match dir with
    | .bad => pure false
    | .found none => stop .fault
    | .found (some dir) =>
      if dir.empty then
        match (pathTokens path).getLast? with
        | none => stop .fault
        | some delete => do
          let root ← dirOpenRoot fuel
          match root with
          | none => stop .panic
          | some root => do
            let success ← dirRemove fuel root delete
            dirClose fuel (some dir)
            pure success
      else
        pure false

end Pintos
