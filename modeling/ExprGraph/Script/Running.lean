import ExprGraph.Algebra.Export
import ExprGraph.Construction
import ExprGraph.Script.Workbench
import ExprGraph.Tree.Likeness
import ExprGraph.Tree.Measures
import ExprGraph.Tree.Rendering
import ExprGraph.Tree.Validity
/-!
  Running scripts.

  A command first decodes the operator it describes, then looks up the handle or builder it works on, then
  what else it names, from left to right; only then the library is called.  A command that fails puts
  nothing under any name.  Constructing a tree, folding and building may fail halfway; what they did before
  stays.
-/

namespace ExprGraph

namespace Script

namespace Workbench

/-! ## Questions -/

/-- The vertices of a tree in an order of the given name. -/
def listing (s : Store) (root : VertexId) (order : String) : Except Fault (List VertexId) :=
  if order = "post_order" then .ok (s.postOrder root)
  else if order = "breadth_first" then .ok (s.byLevel root)
  else .error (.unknownOrder order)

/-- The payloads of a walk with the owners of their vertices, counted while a handle is held for every
    vertex of the walk. -/
def ownersHeld (s : Store) (root : VertexId) : List (String × Nat) :=
  let (_, held) := s.bindWalk root
  (held.look (s.postOrder root)).map fun x => (x.payload.display, x.owners)

/-- The literal form of a vertex. -/
def vertexText (x : Vertex) : String :=
  "Node(" ++ x.payload.literal ++ ", children=" ++ toString x.children.length ++ ", owners="
    ++ toString x.owners ++ ")"

/-- **Answers a question about a tree.** -/
def answer (s : Store) (v : VertexId) (x : Vertex) : Query → Except Fault Answer
  | .payload => .ok (.payload x.payload)
  | .size => .ok (.number (s.treeSize v))
  | .depth => .ok (.number (s.depth v))
  | .variableNames => .ok (.texts (Table.sortNames (s.variableNames v)))
  | .usage => .ok (.usage (s.usage v))
  | .isConstant => .ok (.truth (s.isConstant v))
  | .text => .ok (.text (s.render v))
  | .textLength => .ok (.number (s.render v).length)
  | .treeText => .ok (.text ("Tree(" ++ s.render v ++ ")"))
  | .vertexText => .ok (.text (vertexText x))
  | .problems => .ok (.problems ((s.problems v).map Problem.text) (s.isValid v))
  | .listing order => do
    return .texts ((s.look (← listing s v order)).map fun x => x.payload.display)
  | .owners => .ok (.owners (ownersHeld s v))
  | .isSole => .ok (.truth (x.owners == 1))
  | .counts => .ok (.counts x.owners x.children.length x.operands.length)
  | .algebra => (s.algebra v).map .algebra
  | .latex => do
    return .text (← s.latex v)

/-! ## Commands -/

/-- An answer, or a fault that leaves the workbench as it was. -/
def settle (w : Workbench) (r : Except Fault (Answer × Workbench)) : Except Fault Answer × Workbench :=
  match r with
  | .ok (a, w) => (.ok a, w)
  | .error e => (.error e, w)

/-- Carries out a construction once its arguments are there; it may fail halfway. -/
def construct {α : Type} (w : Workbench) (c : Except Fault (Action α))
    (finish : Workbench → α → Answer × Workbench) : Except Fault Answer × Workbench :=
  match c with
  | .error e => (.error e, w)
  | .ok c =>
    match c w.session with
    | (.ok a, s) =>
      let (answer, w) := finish (w.withSession s) a
      (.ok answer, w)
    | (.error e, s) => (.error e, w.withSession s)

/-- Puts the handle that was constructed under a name. -/
def keepHandle (target : String) (w : Workbench) (h : Handle) : Answer × Workbench :=
  (.done, w.putHandle target h)

/-- A new handle under a name. -/
def keep (w : Workbench) (target : String) (made : Handle × Session) : Answer × Workbench :=
  (.done, (w.withSession made.2).putHandle target made.1)

/-- A new handle under a name if there is one; otherwise it is given back. -/
def keepOrDrop (w : Workbench) (target : Option String) (h : Handle) : Workbench :=
  match target with
  | some name => w.putHandle name h
  | none => w.giveBack h

/-- Applies an operator `count` times to the last result, placed among the operands by `operands`.
    The remarks made so far are held latest first. -/
def iterate (f : OperatorLike) (operands : Handle → List TreeLike) (first : Handle) :
    Nat → Store → List Note → Handle → Except Fault (Handle × Store.Changed)
  | 0, s, notes, h => .ok (h, ⟨s, notes.reverse⟩)
  | count + 1, s, notes, h => do
    let (next, c) ← s.makeOperator (← f.resolve) (operands h)
    let s := if h == first then c.store else c.store.drop h
    iterate f operands first count s (c.notes.reverse ++ notes) next

/-- Keeps the last result of a repeated application. -/
def keepIterated (w : Workbench) (target : String) (f : OperatorLike)
    (operands : Handle → List TreeLike) (count : Nat) (first : Handle) :
    Except Fault (Answer × Workbench) := do
  let (h, c) ← iterate f operands first count w.session.store [] first
  return w.keep target (h, w.session.change c)

/-- Puts handles under names as far as the names go, and gives the others back. -/
def keepEach (w : Workbench) : List String → List Handle → Workbench
  | name :: names, h :: hs => (w.putHandle name h).keepEach names hs
  | _, hs => hs.foldl giveBack w

/-- The payloads the handles are bound to. -/
def payloads (s : Store) (hs : List Handle) : List Payload :=
  (s.look (hs.filterMap s.target?)).map Vertex.payload

/-- Steps a walk several times; past its end it yields nothing. -/
def step (s : Store) : Nat → Cursor → List (Option Payload) × Cursor
  | 0, c => ([], c)
  | count + 1, c =>
    let (found, c) := c.next s
    let (rest, c) := step s count c
    ((found.bind s.vertex?).map Vertex.payload :: rest, c)

/-- Runs a command on trees. -/
def runTree (w : Workbench) : TreeCommand → Except Fault Answer × Workbench
  | .constant target v => w.construct (.ok (.makeConstant v)) (keepHandle target)
  | .variable target name observed =>
    w.construct (do return .makeVariable name (← w.set? observed)) (keepHandle target)
  | .operator target f cs =>
    w.construct (do return .makeOperator (← f.decode) (← w.arguments cs)) (keepHandle target)
  | .vertex target p => w.construct (do return .vertex (.payload (← p.payload))) (keepHandle target)
  | .noVertex kind => w.construct (.ok (.vertex (.other kind))) fun w _ => (.done, w)
  | .linked target p children => w.settle do
    let p ← p.payload
    let hs ← match children with
      | some names => (w.handleAll names).map some
      | none => .ok none
    let (h, store) ← w.session.store.makeLinked p hs
    return w.keep target (h, { w.session with store })
  | .chain target f count leaf other onRight => w.settle do
    let f ← f.decode
    let first ← w.handle leaf
    let other ← w.handle other
    let operands := fun h : Handle =>
      if onRight then [TreeLike.tree other, .tree h] else [.tree h, .tree other]
    w.keepIterated target f operands count first
  | .double target f count leaf => w.settle do
    let f ← f.decode
    let first ← w.handle leaf
    let operands := fun h : Handle => [TreeLike.tree h, .tree h]
    w.keepIterated target f operands count first
  | .link h cs =>
    w.construct (do return .link (← w.handle h) (← w.arguments cs)) fun w _ => (.done, w)
  | .share target h => w.settle do
    let (g, store) ← w.session.store.share (← w.handle h)
    return w.keep target (g, { w.session with store })
  | .clone target h => w.settle do
    let (g, store) ← w.session.store.clone (← w.handle h)
    return w.keep target (g, { w.session with store })
  | .drop h => w.settle do return (.done, w.dropHandle h (← w.handle h))
  | .children h targets => w.settle do
    let (hs, store) ← w.session.store.childHandles (← w.handle h)
    let ps := hs.map (payloads store)
    return (.children ps, (w.withStore store).keepEach targets (hs.getD []))
  | .evaluate h b strategy => w.settle do
    let (v, s) ← w.session.evaluate (← w.handle h) strategy b
    return (.value v, w.withSession s)
  | .query h q => w.settle do
    let (v, x) ← w.session.store.behind (← w.handle h)
    return (← answer w.session.store v x q, w)
  | .walk target h => w.settle do return (.done, w.putWalk target (.start (← w.root h)))
  | .next walk count => w.settle do
    let (ps, c) := step w.session.store count (← named w.walks walk)
    return (.visited ps, w.putWalk walk c)
  | .alike a b => w.settle do
    let a ← w.root a
    return (.truth (← w.session.store.alike a (← w.root b)), w)
  | .coincide a b => w.settle do
    let a ← w.handle a
    return (.truth (← w.session.store.coincide a (← w.handle b)), w)
  | .heap => (.ok w.heap, w)

/-- Runs a command on name sets and builders. -/
def runBuilder (w : Workbench) : BuilderCommand → Except Fault Answer × Workbench
  | .makeSet target names =>
    let (i, s) := w.session.makeSet names
    (.ok .done, { w.withSession s with sets := w.sets.put target i })
  | .addToSet set name => w.settle do
    return (.done, w.withSession (w.session.observe (← named w.sets set) name))
  | .showSet set => w.settle do
    return (.texts (Table.sortNames (w.session.names (← named w.sets set))), w)
  | .make target observed operators => w.settle do
    let operators ← operators.mapM fun (name, f) => f.operator.map fun f => (name, f)
    let (i, s) := w.session.makeBuilder (← w.set? observed) operators
    return (.done, (w.withSession s).putBuilder target i)
  | .constant b target v =>
    w.construct (do
      let _ ← named w.builders b
      return .makeConstant v) (keepHandle target)
  | .variable b target name =>
    w.construct (do return .builderVariable (← named w.builders b) name) (keepHandle target)
  | .operator b target f cs =>
    w.construct (do
      let f ← f.decode
      let i ← named w.builders b
      return .builderOperator i f (← w.arguments cs)) (keepHandle target)
  | .register b f name =>
    w.construct (do
      let f ← f.decode
      return .register (← named w.builders b) f name) fun w f => (.payload (.op f), w)
  | .registry b => w.settle do
    return (.registry (w.session.builder (← named w.builders b)).registry, w)
  | .observed b => w.settle do
    let i ← named w.builders b
    return (.texts (Table.sortNames (w.session.names (w.session.builder i).names)), w)
  | .define b name tree =>
    w.construct (do
      let i ← named w.builders b
      return .define i name (← w.argument tree)) fun w _ => (.truth true, w)
  | .isDefined b name => w.settle do
    return (.truth (Session.Builder.isDefined w.session (← named w.builders b) name), w)
  | .resolve b name target set =>
    w.construct (do return .resolve (← named w.builders b) name) fun w (h, k) =>
      let names := Table.sortNames (w.session.names k)
      -- the set is the caller's own, and gets a name of his
      let w := w.keepOrDrop target h
      let w := w.withSession (w.session.observe k "caller")
      match set with
      | some set => (.texts names, { w with sets := w.sets.put set k })
      | none => (.texts names, w)

/-- The level of a name. -/
def levelOf : Option String → Except Fault LogLevel
  | some name => orFault .unknownLevel (LogLevel.ofName? name)
  | none => .ok .moderate

/-- Runs a command on the log. -/
def runLog (w : Workbench) (c : LogCommand) : Except Fault (Answer × Workbench) := do
  let log := w.session.log
  let change := fun log : Log => w.withSession { w.session with log }
  match c with
  | .configure level file =>
    let level ← levelOf level
    return (.level level, change (log.configure level file))
  | .setLevel level => return (.done, change (log.setLevel (← levelOf level)))
  | .showLogger => return (.logger log.current, change log.ensure)
  | .say m => return (.done, change (log.say m))
  | .inform text level => return (.done, change (log.say (.info text (← levelOf level))))
  | .showFile => return (.logFile log.file, w)

/-- Folds the tree of a name. -/
def runFold (w : Workbench) (name : String) (summary : Bool) : Except Fault Answer × Workbench :=
  match w.handle name with
  | .error e => (.error e, w)
  | .ok h =>
    let (outcome, s) := w.session.foldConstants h summary
    (outcome.map fun n => if summary then .done else .number n, w.withSession s)

/-- Fetches the tree that the commands of a construction have published. -/
def finishBuild (w : Workbench) (i : BuilderId) (name : String) (target : Option String) :
    Except Fault (Answer × Workbench) := do
  let (h, k, s) ← Session.Builder.complete w.session i name
  return (.texts (Table.sortNames (s.names k)), (w.withSession s).keepOrDrop target h)

mutual

/-- **Runs a command.** -/
def run (w : Workbench) (c : Command) : Except Fault Answer × Workbench :=
  match c with
  | .tree c => w.runTree c
  | .builder c => w.runBuilder c
  | .log c => w.settle (w.runLog c)
  | .fold h summary => w.runFold h summary
  | .build b name target steps =>
    match named w.builders b with
    | .error e => (.error e, w)
    | .ok i =>
      match (w.beginBuild i).runAll steps with
      | (.error e, w) => (.error e, w.endBuild i)
      | (.ok (), w) =>
        let (r, w) := w.settle (w.finishBuild i name target)
        (r, w.endBuild i)

/-- Runs commands until one fails. -/
def runAll (w : Workbench) (cs : List Command) : Except Fault Unit × Workbench :=
  match cs with
  | [] => (.ok (), w)
  | c :: cs =>
    match w.run c with
    | (.error e, w) => (.error e, w)
    | (.ok _, w) => w.runAll cs

end

end Workbench

/-- What a step of a script shows. -/
structure Shown where
  outcome : Except Fault Answer
  /-- the console records of the step -/
  records : List Record
  /-- the workbench after it -/
  after : Workbench

/-- **Runs a script**, command by command, whether or not they fail. -/
def runScript : Workbench → List Command → List Shown
  | _, [] => []
  | w, c :: cs =>
    let (outcome, w) := w.run c
    let (records, log) := w.session.log.takeConsole
    let w := w.withSession { w.session with log }
    ⟨outcome, records, w⟩ :: runScript w cs

end Script

end ExprGraph
