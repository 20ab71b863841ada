import ExprGraph.Script.Command
/-!
  The tables of a script.

  A workbench is a session with names for its handles, name sets, builders and walks.  Two names may stand
  for one handle; it is given back when the last of them goes.  The vertices on the paths of the walks are
  pinned.  A builder goes when its name is taken over by another, though not while a construction with it
  is under way.
-/

namespace ExprGraph

namespace Script

/-- A session with names for what is in it. -/
structure Workbench where
  session : Session
  handles : Table Handle
  sets : Table SetId
  builders : Table BuilderId
  walks : Table Cursor
  /-- builders with constructions under way -/
  busy : List BuilderId

namespace Workbench

/-- The workbench at the beginning. -/
def empty : Workbench := ⟨.empty, [], [], [], [], []⟩

/-! ## Names -/

/-- The entry under a name. -/
def named {α : Type} (t : Table α) (name : String) : Except Fault α :=
  orFault (.noSuchName name) (t.find? name)

/-- The handle of a name. -/
def handle (w : Workbench) (name : String) : Except Fault Handle := named w.handles name

/-- The handles of several names. -/
def handleAll (w : Workbench) (names : List String) : Except Fault (List Handle) := names.mapM w.handle

/-- What an argument stands for. -/
def argument (w : Workbench) : Argument → Except Fault TreeLike
  | .named name => (w.handle name).map .tree
  | .other kind => .ok (.other kind)

/-- What several arguments stand for. -/
def arguments (w : Workbench) (as : List Argument) : Except Fault (List TreeLike) := as.mapM w.argument

/-- The vertex of a named handle. -/
def root (w : Workbench) (name : String) : Except Fault VertexId := do
  w.session.store.root (← w.handle name)

/-- The set of an optional name. -/
def set? (w : Workbench) : Option String → Except Fault (Option SetId)
  | some name => (named w.sets name).map some
  | none => .ok none

/-! ## Changing the tables -/

/-- Goes on with a changed session. -/
def withSession (w : Workbench) (s : Session) : Workbench := { w with session := s }

/-- Goes on with a changed store. -/
def withStore (w : Workbench) (store : Store) : Workbench :=
  { w with session := { w.session with store } }

/-- Gives a handle back unless a name still stands for it. -/
def giveBack (w : Workbench) (h : Handle) : Workbench :=
  if w.handles.any fun e => e.2 == h then w else w.withStore (w.session.store.drop h)

/-- Puts a handle under a name; what was there before is given back. -/
def putHandle (w : Workbench) (name : String) (h : Handle) : Workbench :=
  let old := w.handles.find? name
  let w := { w with handles := w.handles.put name h }
  match old with
  | some old => w.giveBack old
  | none => w

/-- Takes the handle of a name away. -/
def dropHandle (w : Workbench) (name : String) (h : Handle) : Workbench :=
  { w with handles := w.handles.remove name }.giveBack h

/-- Puts a walk under a name, and pins what the walks stand on. -/
def putWalk (w : Workbench) (name : String) (c : Cursor) : Workbench :=
  let walks := w.walks.put name c
  let pins := walks.flatMap fun e => e.2.vertices
  { w with walks }.withStore (w.session.store.repin pins)

/-- A builder without a name, and without a construction under way, goes. -/
def retire (w : Workbench) (i : BuilderId) : Workbench :=
  if w.builders.any (fun e => e.2 == i) || w.busy.contains i then w
  else w.withSession (w.session.dismiss i)

/-- Puts a builder under a name. -/
def putBuilder (w : Workbench) (name : String) (i : BuilderId) : Workbench :=
  let old := w.builders.find? name
  let w := { w with builders := w.builders.put name i }
  match old with
  | some old => w.retire old
  | none => w

/-- A construction with a builder begins. -/
def beginBuild (w : Workbench) (i : BuilderId) : Workbench := { w with busy := i :: w.busy }

/-- A construction with a builder ends. -/
def endBuild (w : Workbench) (i : BuilderId) : Workbench := { w with busy := w.busy.erase i }.retire i

/-! ## Pictures -/

/-- The handles in the order of their names, with the vertices they are bound to. -/
def sortedRoots (w : Workbench) : List (String × VertexId) :=
  (Table.sorted w.handles).filterMap fun (name, h) =>
    (w.session.store.target? h).map fun v => (name, v)

/-- **The heap**: the handles by name, and everything below them. -/
def heap (w : Workbench) : Answer :=
  let roots := w.sortedRoots
  let picture := w.session.store.snapshot (roots.map Prod.snd)
  .heap ((roots.map Prod.fst).zip picture.roots) picture.rows

end Workbench

end Script

end ExprGraph
