import Patchbay.Formula.Basic
import Patchbay.Proofs.Forwarding
/-!
Meshes and the files they are told to load.

A mesh takes over a path at its turn and starts a load for it, if it can be
started; the load goes on beside the frames and may answer at any later turn,
with a mesh or an error, also after the mesh has been told something else.  To
say which load a mesh on the output has come from, a record is kept beside the
graph (`Action.record`): every path that a node takes over opens an errand,
with the load started for it, and every result that the node takes is noted
with the errand that it is on then.  `MeshSource.Accounts` is what the record,
the state of the mesh and its output have to do with each other.  It holds
between any two actions, whatever the loads answer, so a result is only ever
taken from the load of the path in force, and only once.
-/

namespace Patchbay

/-! ## Errands -/

/-- The result that an answer brings. -/
def LoadPoll.result? {α : Type} : LoadPoll (Except LoadError α) → Option (Except LoadError α)
  | .pending => none
  | .ready result => some result
  | .failed e => some (.error e)

/-- A result, and the load from which it was taken. -/
abbrev Delivery := Load × Except LoadError MeshData

/-- What came of a path that a mesh took over: where assets lay then, the load that was started,
and the results that have been taken since. -/
structure Errand where
  path : String
  root : Option String
  load : Option Load
  results : List Delivery

namespace Errand

/-- The errand of a mesh that has taken over no path yet. -/
def blank : Errand := ⟨"", none, none, []⟩

/-- The errand that a mesh is on, by its record, which has the last errand first. -/
def current (log : List Errand) : Errand := log.headD blank

/-- The record with a result, which goes to the errand that the mesh is on. -/
def noted (log : List Errand) : Option Delivery → List Errand
  | none => log
  | some r => { current log with results := (current log).results ++ [r] } :: log.tail

/-- The load of a path: the file is looked for where assets lie. -/
def loadOf (path : String) (root : Option String) (number : Nat) : Load :=
  ⟨path, resolveAsset root path, number⟩

/-- An errand, the state of a mesh that is on it and the value on its output. -/
inductive Stands : Errand → MeshSource → Value → Prop
  | idle {root : Option String} {started : Nat} :
      Stands ⟨"", root, none, []⟩ ⟨"", none, .noFile, started, none⟩ .empty
  | waiting {path : String} {root : Option String} {number started : Nat} :
      Stands ⟨path, root, some (loadOf path root number), []⟩
        ⟨path, none, .loading (loadOf path root number), started, none⟩ .empty
  | fetched {path : String} {root : Option String} {number started : Nat} {mesh : MeshData} :
      Stands ⟨path, root, some (loadOf path root number), [(loadOf path root number, .ok mesh)]⟩
        ⟨path, none, .ready, started, none⟩ (.mesh mesh)
  | unstarted {path : String} {root : Option String} {started : Nat} {e : LoadError} :
      Stands ⟨path, root, none, []⟩ ⟨path, none, .invalid, started, some (.resource e)⟩ .empty
  | failed {path : String} {root : Option String} {number started : Nat} {e : LoadError} :
      Stands ⟨path, root, some (loadOf path root number), [(loadOf path root number, .error e)]⟩
        ⟨path, none, .invalid, started, some (.resource e)⟩ .empty

section Standing
variable {e : Errand} {m : MeshSource} {v : Value} (h : e.Stands m v)
include h

theorem Stands.pendingPath : m.pendingPath = none := by cases h <;> rfl

theorem Stands.path : m.path = e.path := by cases h <;> rfl

/-- A mesh that is ready has the result of its errand's load, and it is on the output. -/
theorem Stands.ready (hready : m.status = .ready) : ∃ number mesh,
    e.load = some (loadOf m.path e.root number) ∧
      e.results = [(loadOf m.path e.root number, .ok mesh)] ∧ v = .mesh mesh := by
  cases h with
  | fetched => exact ⟨_, _, rfl, rfl, rfl⟩
  | _ => exact nomatch hready

theorem Stands.empty (hready : m.status ≠ .ready) : v = .empty := by
  cases h with
  | fetched => exact absurd rfl hready
  | _ => rfl

theorem Stands.error : m.error.isSome = true ↔ m.status = .invalid := by
  cases h <;> simp

end Standing

/-- At most one result has been taken, and that from the errand's own load. -/
def Single (e : Errand) : Prop := e.results.length ≤ 1 ∧ ∀ r ∈ e.results, e.load = some r.1

/-- Each errand starts a load after those of the errands before it. -/
def Later (e e' : Errand) : Prop := ∀ load ∈ e.load, ∀ load' ∈ e'.load, load'.number < load.number

/-- A record of errands in their order that have started some of the first `started` loads. -/
structure Orderly (started : Nat) (log : List Errand) : Prop where
  single : ∀ e ∈ log, e.Single
  bound : ∀ e ∈ log, ∀ load ∈ e.load, load.number < started
  later : log.Pairwise Later

variable {started : Nat} {log : List Errand}

theorem orderly_nil (started : Nat) : Orderly started [] where
  single _ h := nomatch h
  bound _ h := nomatch h
  later := .nil

theorem Orderly.opened (h : Orderly started log) (path : String) (root : Option String)
    {load : Option Load} {next : Nat} (hnext : started ≤ next)
    (hload : ∀ l ∈ load, started ≤ l.number ∧ l.number < next) :
    Orderly next (⟨path, root, load, []⟩ :: log) where
  single := List.forall_mem_cons.mpr ⟨⟨Nat.zero_le 1, fun _ hr => nomatch hr⟩, h.single⟩
  bound := List.forall_mem_cons.mpr ⟨fun l hl => (hload l hl).2,
    fun e he l hl => Nat.lt_of_lt_of_le (h.bound e he l hl) hnext⟩
  later := List.pairwise_cons.mpr ⟨fun e he l hl l' hl' =>
    Nat.lt_of_lt_of_le (h.bound e he l' hl') (hload l hl).1, h.later⟩

/-- A first result, which is that of the errand's load, can be noted. -/
theorem Orderly.noted (h : Orderly started log) {load : Load} (hload : (current log).load = some load)
    (hnone : (current log).results = []) (r : Except LoadError MeshData) :
    Orderly started (noted log (some (load, r))) := by
  cases log with
  | nil => exact nomatch hload
  | cons e log =>
      have hload : e.load = some load := hload
      have hnone : e.results = [] := hnone
      obtain ⟨-, hsingle⟩ := List.forall_mem_cons.mp h.single
      obtain ⟨hown, hbound⟩ := List.forall_mem_cons.mp h.bound
      obtain ⟨hlater, hrest⟩ := List.pairwise_cons.mp h.later
      refine ⟨List.forall_mem_cons.mpr ⟨?_, hsingle⟩, List.forall_mem_cons.mpr ⟨hown, hbound⟩,
        List.pairwise_cons.mpr ⟨hlater, hrest⟩⟩
      simp only [current, List.headD_cons, hnone, List.nil_append, Single]
      refine ⟨Nat.le_refl 1, fun r' hr' => ?_⟩
      rw [List.mem_singleton.mp hr']
      exact hload

end Errand

/-! ## The turn of a mesh -/

/-- An output that is emptied shows nothing. -/
theorem Directory.firstValue?_publish_empty {d : Directory} {v : Value}
    (h : d.firstValue? = some v) : (d.post (.publish 0 .empty)).firstValue? = some .empty := by
  obtain ⟨c, hc, -⟩ := Option.map_eq_some_iff.mp h
  obtain ⟨o, ho, hsame | hempty⟩ := Directory.firstValue?_publish hc .empty
  · cases o with
    | empty => exact ho
    | _ => exact nomatch hsame
  · rw [ho, hempty]

/-- An empty output shows whatever is published there. -/
theorem Directory.firstValue?_publish_mesh {d : Directory} (h : d.firstValue? = some .empty)
    (mesh : MeshData) : (d.post (.publish 0 (.mesh mesh))).firstValue? = some (.mesh mesh) := by
  obtain ⟨c, hc, hempty⟩ := Option.map_eq_some_iff.mp h
  have hcell := Directory.cell?_modifyCell d 0 0 (·.publish (.mesh mesh))
  rw [if_pos rfl, hc] at hcell
  have hwritten : (c.publish (.mesh mesh)).value = .mesh mesh := by
    unfold Cell.publish
    rw [hempty]
    rfl
  exact (congrArg (Option.map Cell.value) hcell).trans (congrArg some hwritten)

namespace MeshSource

/-- The record when a path that waits has been taken over. -/
def sent (now : Moment) (id : NodeId) (m : MeshSource) (log : List Errand) : List Errand :=
  match m.pendingPath with
  | none => log
  | some path => ⟨path, now.assetsRoot, (m.redirected now id).1.status.load?, []⟩ :: log

/-- The result that the load under way gives, if there is a load and it has one. -/
def delivery? (poll : Load → LoadPoll (Except LoadError MeshData)) (m : MeshSource) :
    Option Delivery :=
  m.status.load?.bind fun load => (poll load).result?.map fun r => (load, r)

/-- The record after a turn. -/
def record (now : Moment) (id : NodeId) (m : MeshSource) (log : List Errand) : List Errand :=
  Errand.noted (m.sent now id log) ((m.redirected now id).1.delivery? (now.poll id))

/-- The record of a mesh, its state and its output agree.  As long as a path waits, the state and
the output are of no account, since the turn will give up both. -/
structure Accounts (m : MeshSource) (out : Option Value) (log : List Errand) : Prop where
  stands : m.pendingPath = none → ∃ v, out = some v ∧ (Errand.current log).Stands m v
  orderly : Errand.Orderly m.started log

variable {m : MeshSource} {log : List Errand} {d : Directory}

/-- The errand of a path whose load has been started, or could not be. -/
theorem stands_loading (now : Moment) (id : NodeId) (path : String) (started : Nat) :
    let m := loading now id ⟨path, none, .noFile, started, none⟩
    (⟨path, now.assetsRoot, m.status.load?, []⟩ : Errand).Stands m .empty ∧ started ≤ m.started ∧
      ∀ load ∈ m.status.load?, started ≤ load.number ∧ load.number < m.started := by
  dsimp only [loading]
  split
  · exact ⟨.unstarted, Nat.le_refl _, fun load hload => nomatch hload⟩
  · refine ⟨.waiting, Nat.le_succ _, fun load hload => ?_⟩
    cases hload
    exact ⟨Nat.le_refl _, Nat.lt_succ_self _⟩

/-- A mesh that was told a path has an empty output when it has taken it over, and is on a new
errand. -/
theorem Accounts.redirected (now : Moment) (id : NodeId) (h : m.Accounts d.firstValue? log)
    {v : Value} (hv : d.firstValue? = some v) :
    (m.redirected now id).1.pendingPath = none ∧
      (m.redirected now id).1.Accounts ((m.redirected now id).2.foldl Directory.post d).firstValue?
        (m.sent now id log) := by
  unfold sent
  cases hpending : m.pendingPath with
  | none =>
      have hsame : m.redirected now id = (m, []) := by
        unfold MeshSource.redirected
        rw [hpending]
      rw [hsame]
      exact ⟨hpending, h⟩
  | some path =>
      have hempty := Directory.firstValue?_publish_empty hv
      by_cases hpath : path.isEmpty = true
      · have hnext : m.redirected now id =
            (⟨path, none, .noFile, m.started, none⟩, [.publish 0 .empty]) := by
          unfold MeshSource.redirected
          simp only [hpending, hpath, if_true]
        rw [hnext]
        have hnil : path = "" := String.isEmpty_iff.mp hpath
        subst hnil
        refine ⟨rfl, fun _ => ⟨.empty, hempty, .idle⟩, ?_⟩
        exact h.orderly.opened _ _ (Nat.le_refl _) fun _ hl => nomatch hl
      · have hnext : m.redirected now id =
            (loading now id ⟨path, none, .noFile, m.started, none⟩, [.publish 0 .empty]) := by
          unfold MeshSource.redirected
          simp only [hpending, hpath]
          rfl
        rw [hnext]
        obtain ⟨hstands, hstarted, hnumber⟩ := stands_loading now id path m.started
        exact ⟨hstands.pendingPath, fun _ => ⟨.empty, hempty, hstands⟩,
          h.orderly.opened _ _ hstarted hnumber⟩

theorem polled_of_loading {load : Load} (h : m.status = .loading load)
    (poll : Load → LoadPoll (Except LoadError MeshData)) :
    m.polled poll = ((poll load).result?.map m.settled).getD (m, []) := by
  simp only [polled, h]
  cases poll load <;> rfl

theorem delivery?_of_loading {load : Load} (h : m.status = .loading load)
    (poll : Load → LoadPoll (Except LoadError MeshData)) :
    m.delivery? poll = (poll load).result?.map fun r => (load, r) := by
  unfold delivery?
  rw [h]
  rfl

/-- The state of a mesh on an errand after it has asked for a result, whatever the answer. -/
theorem stands_polled {e : Errand} {v : Value}
    (poll : Load → LoadPoll (Except LoadError MeshData)) (h : e.Stands m v)
    (hv : d.firstValue? = some v) :
    (m.polled poll).1.started = m.started ∧
      ∃ v', ((m.polled poll).2.foldl Directory.post d).firstValue? = some v' ∧
        (Errand.current (Errand.noted [e] (m.delivery? poll))).Stands (m.polled poll).1 v' := by
  cases h with
  | idle => exact ⟨rfl, .empty, hv, .idle⟩
  | fetched => exact ⟨rfl, _, hv, .fetched⟩
  | unstarted => exact ⟨rfl, .empty, hv, .unstarted⟩
  | failed => exact ⟨rfl, _, hv, .failed⟩
  | waiting =>
      rw [polled_of_loading rfl, delivery?_of_loading rfl]
      cases (poll _).result? with
      | none => exact ⟨rfl, .empty, hv, .waiting⟩
      | some result =>
          cases result with
          | ok mesh => exact ⟨rfl, .mesh mesh, Directory.firstValue?_publish_mesh hv mesh, .fetched⟩
          | error e => exact ⟨rfl, .empty, Directory.firstValue?_publish_empty hv, .failed⟩

/-- A result is only taken on an errand whose load is under way and has given none. -/
theorem of_delivery? {e : Errand} {v : Value} {poll : Load → LoadPoll (Except LoadError MeshData)}
    (h : e.Stands m v) {r : Delivery} (hr : m.delivery? poll = some r) :
    e.load = some r.1 ∧ e.results = [] := by
  obtain ⟨load, hload, hr⟩ := Option.bind_eq_some_iff.mp hr
  obtain ⟨_, -, rfl⟩ := Option.map_eq_some_iff.mp hr
  cases h with
  | waiting => cases hload; exact ⟨rfl, rfl⟩
  | _ => exact nomatch hload

theorem Accounts.polled (poll : Load → LoadPoll (Except LoadError MeshData))
    (hpending : m.pendingPath = none) (h : m.Accounts d.firstValue? log) :
    (m.polled poll).1.pendingPath = none ∧
      (m.polled poll).1.Accounts ((m.polled poll).2.foldl Directory.post d).firstValue?
        (Errand.noted log (m.delivery? poll)) := by
  obtain ⟨v, hv, hstands⟩ := h.stands hpending
  obtain ⟨hstarted, v', hv', hnext⟩ := stands_polled poll hstands hv
  have hcurrent : Errand.current (Errand.noted [Errand.current log] (m.delivery? poll)) =
      Errand.current (Errand.noted log (m.delivery? poll)) := by
    cases m.delivery? poll with
    | none => rfl
    | some r => rfl
  rw [hcurrent] at hnext
  refine ⟨hnext.pendingPath, fun _ => ⟨v', hv', hnext⟩, ?_⟩
  rw [hstarted]
  cases hr : m.delivery? poll with
  | none => exact h.orderly
  | some r =>
      obtain ⟨hload, hnone⟩ := of_delivery? hstands hr
      exact h.orderly.noted hload hnone r.2

/-- A turn keeps the record in agreement, and no path waits after it. -/
theorem Accounts.turn (now : Moment) (id : NodeId) (h : m.Accounts d.firstValue? log) {v : Value}
    (hv : d.firstValue? = some v) {r : Readings} :
    ((m.plan now id).finish r).1.pendingPath = none ∧
      ((m.plan now id).finish r).1.Accounts
        (((m.plan now id).finish r).2.foldl Directory.post d).firstValue? (m.record now id log) := by
  obtain ⟨hpending, hsent⟩ := h.redirected now id hv
  obtain ⟨hnone, hnext⟩ := hsent.polled (now.poll id) hpending
  refine ⟨hnone, ?_⟩
  rw [show (m.plan now id).finish r = (((m.redirected now id).1.polled (now.poll id)).1,
    (m.redirected now id).2 ++ ((m.redirected now id).1.polled (now.poll id)).2) from rfl,
    List.foldl_append]
  exact hnext

end MeshSource

/-! ## Nodes -/

variable [Formula.Engine]

/-- A mesh out of a scene has a path to take over. -/
theorem Behavior.waits_get (t : NodeType) :
    (Behavior.get t).Yields fun b => ∀ m, b = .mesh m → m.pendingPath ≠ none := by
  cases t with
  | mesh =>
      refine BlockReader.Yields.map (Q := fun m => m.pendingPath ≠ none) ?_ fun m hm m' h => ?_
      · refine BlockReader.yields_after fun path => BlockReader.yields_pure ?_
        exact fun h => nomatch h
      · cases h
        exact hm
  | listJoin | time | display | feedback =>
      refine BlockReader.yields_pure ?_
      exact fun m h => nomatch h
  | _ =>
      refine BlockReader.yields_map fun s => ?_
      exact fun m h => nomatch h

namespace Node

/-- The record after the turn of a node; only a mesh has errands. -/
def record (now : Moment) (n : Node) (log : List Errand) : List Errand :=
  match n.behavior with
  | .mesh m => m.record now n.id log
  | _ => log

/-- If the node is a mesh, it agrees with the record. -/
def Accounts (log : List Errand) (n : Node) : Prop :=
  ∀ m, n.behavior = .mesh m → m.Accounts n.ports.firstValue? log

variable {n : Node} {log : List Errand}

/-- Edits concern a mesh only when they tell it a path, and then it is of no account until it has
taken the path over. -/
theorem durable_accounts (log : List Errand) : Durable (Accounts log) := by
  refine durable_of_behavior (B := fun b out => ∀ m, b = .mesh m → m.Accounts out log) ?_ ?_ ?_
  · intro b out input p h m hm
    cases b with
    | mesh s => exact h m hm
    | _ => exact nomatch hm
  · intro b out input h m hm
    cases b with
    | mesh s => exact h m hm
    | _ => exact nomatch hm
  · intro b out s h m hm
    have htype := s.type_onBehavior b
    rw [hm] at htype
    cases b with
    | mesh m' =>
        cases s with
        | meshPath path =>
            cases hm
            exact ⟨fun hnone => (nomatch hnone), (h m' rfl).orderly⟩
        | _ => exact h m hm
    | _ => exact nomatch htype

/-- A node that has just been made agrees with an empty record. -/
theorem accounts_create (t : NodeType) (c : Context) (id : NodeId) :
    Accounts [] { (create t c).1 with id } := by
  intro m hm
  cases t with
  | mesh =>
      cases hm
      exact ⟨fun _ => ⟨.empty, rfl, .idle⟩, Errand.orderly_nil 0⟩
  | _ => exact nomatch hm

/-- So does a node out of a scene, whatever mesh the scene has on its output. -/
theorem accounts_loaded (h : ∀ m, n.behavior = .mesh m → m.pendingPath ≠ none) : n.Accounts [] :=
  fun m hm => ⟨fun hnone => absurd hnone (h m hm), Errand.orderly_nil m.started⟩

theorem exists_mesh (h : n.type = .mesh) : ∃ m, n.behavior = .mesh m := by
  unfold type at h
  cases hb : n.behavior with
  | mesh m => exact ⟨m, rfl⟩
  | _ => rw [hb] at h; exact nomatch h

/-- After its turn a mesh has no path to take over, and the record goes on in agreement. -/
theorem accounts_turn {now : Moment} {supply : Supply} (hports : n.ports.Indexed) (hn : n.Sound)
    (h : n.Accounts log) {m : MeshSource} (hm : (n.takeTurn now supply).1.behavior = .mesh m) :
    m.pendingPath = none ∧
      m.Accounts (n.takeTurn now supply).1.ports.firstValue? (n.record now log) := by
  have htype : n.type = .mesh := by
    rw [← takeTurn_type now supply n, type, hm]
    rfl
  obtain ⟨s, hb⟩ := exists_mesh htype
  have houtcome : n.outcome now supply =
      (.mesh ((s.plan now n.id).finish (n.readings now supply)).1,
        ((s.plan now n.id).finish (n.readings now supply)).2) := by
    unfold outcome plan
    rw [hb]
    rfl
  rw [behavior_of_deaf houtcome fun _ => rfl] at hm
  cases hm
  obtain ⟨c, hc⟩ := hn.exists_cell (o := 0) (by rw [htype]; exact Nat.one_pos)
  have hheld : (n.heldTurn now supply).ports.firstValue? = n.ports.firstValue? :=
    firstValue?_heldTurn hports
  have hs : s.Accounts (n.heldTurn now supply).ports.firstValue? log := by
    rw [hheld]
    exact h s hb
  have hv : (n.heldTurn now supply).ports.firstValue? = some c.value := by
    rw [hheld, Directory.firstValue?, hc]
    rfl
  rw [takeTurn_node, houtcome, record, hb]
  exact hs.turn now n.id hv

end Node

/-! ## Graphs -/

namespace Graph

/-- The record of the node `x` after an action.  A node that comes in starts a new one. -/
def Action.record (x : NodeId) : Action → Graph → List Errand → List Errand
  | create t, g, log => if (g.createNode t).1 = x then [] else log
  | add t c, _, log => if (Node.create t c).1.id = x then [] else log
  | load _, _, _ => []
  | step poll dt, g, log =>
    ((g.node? x).map fun n => n.record ((g.withClock (·.step dt)).moment poll) log).getD log
  | tick poll now, g, log =>
    ((g.node? x).map fun n => n.record ((g.withClock (·.tick now)).moment poll) log).getD log
  | _, _, log => log

/-- The errands of the node `x` in a run, the last one first. -/
def errands (x : NodeId) (actions : List Action) (g : Graph) (log : List Errand) : List Errand :=
  match actions with
  | [] => log
  | a :: actions => errands x actions (a.apply g) (a.record x g log)

theorem errands_append (x : NodeId) (actions : List Action) (a : Action) (g : Graph)
    (log : List Errand) :
    errands x (actions ++ [a]) g log = a.record x (g.run actions) (errands x actions g log) := by
  induction actions generalizing g log with
  | nil => rfl
  | cons b actions ih => exact ih (b.apply g) (b.record x g log)

/-- The node `x`, if it is a mesh, agrees with the record. -/
def Accounted (x : NodeId) (log : List Errand) (g : Graph) : Prop :=
  ∀ n, g.node? x = some n → n.Accounts log

variable {g : Graph} {x : NodeId} {log : List Errand}

theorem Accounted.add (h : Accounted x log g) {n : Node} (hn : n.Accounts []) :
    Accounted x (if n.id = x then [] else log) (g.addNode n) := by
  intro m hm
  rw [addNode_eq, node?_inserted (not_mem_ids_removeNode g n.id)] at hm
  split at hm
  · next hx =>
      cases hm
      rw [if_pos hx.symm]
      exact hn
  · next hx =>
      rw [if_neg fun heq => hx heq.symm]
      obtain ⟨k, hk, hkm⟩ := related_removeNode (R := Node.Edited) (fun _ => .refl)
        (fun h h' => h.trans h') (fun _ i => .single (.detach i)) hm
      exact (Node.durable_accounts log).edited hkm (h k hk)

/-- What a node agrees with it goes on agreeing with, as long as it is only edited. -/
theorem Accounted.descends {New : Node → Prop} {g' : Graph}
    (hdescends : Descends Node.Edit New g g') (h : Accounted x log g)
    (hnew : ∀ n, New n → n.Accounts log) : Accounted x log g' := by
  intro m hm
  obtain ⟨n, hnm, hn | hn⟩ := hdescends x m hm
  · exact (Node.durable_accounts log).edited hnm (h n hn)
  · exact (Node.durable_accounts log).edited hnm (hnew n hn)

theorem accounted_load (x : NodeId) (g : Graph) (bytes : List UInt8) :
    Accounted x [] (g.load bytes).2 :=
  throughout_load (Node.durable_accounts []) g
    (fun _ hn => Node.accounts_loaded (Action.behavior_of_load Behavior.waits_get hn)) x

/-- After a frame a mesh has no path to take over, and agrees with the record that has gone on. -/
theorem accounted_frame (hg : g.Reachable) (h : Accounted x log g) (poll : Poll)
    (f : Clock → Clock) {n : Node} (hn : ((g.withClock f).evaluate poll).node? x = some n)
    {m : MeshSource} (hm : n.behavior = .mesh m) :
    let log' := ((g.node? x).map fun n => n.record ((g.withClock f).moment poll) log).getD log
    m.pendingPath = none ∧ m.Accounts n.ports.firstValue? log' := by
  obtain ⟨k, done, rest, hk, -, rfl⟩ := exists_turn hg.wired.nodup hn
  rw [hk]
  have hports := hg.standing.1.ports_indexed hk
  have hsound := hg.standing.2.sound k (mem_of_nodeIn? hk)
  exact Node.accounts_turn hports hsound (h k hk) hm

theorem Accounted.apply (hg : g.Reachable) (h : Accounted x log g) (a : Action) :
    Accounted x (a.record x g log) (a.apply g) := by
  cases a with
  | create t =>
      exact Accounted.add (g := { g with context := (Node.create t g.context).2 }) h
        (Node.accounts_create t g.context _)
  | add t c => exact h.add (Node.accounts_create t c _)
  | load bytes => exact accounted_load x g bytes
  | step poll dt => exact fun n hn m hm => (accounted_frame hg h poll _ hn hm).2
  | tick poll now => exact fun n hn m hm => (accounted_frame hg h poll _ hn hm).2
  | _ => exact h.descends (descends_apply g rfl) fun _ hn => hn.elim

theorem Accounted.run (hg : g.Reachable) (h : Accounted x log g) (actions : List Action) :
    Accounted x (errands x actions g log) (g.run actions) := by
  induction actions generalizing g log with
  | nil => exact h
  | cons a actions ih => exact ih (hg.apply a) (h.apply hg a)

/-- A load that has been superseded is never published.  After every frame a mesh that is ready
shows the one result of the load of its errand, which is that of the path it took over last; in all
other states its output is empty, and there is an error exactly in the state for it.  Every path
was the occasion for at most one result, from the load that it started itself. -/
theorem fetched_after_frame (name : String) (actions : List Action) {a : Action}
    (ha : a.isFrame = true) {x : NodeId} {n : Node} {m : MeshSource}
    (hn : (run (actions ++ [a]) (empty name)).node? x = some n) (hm : n.behavior = .mesh m) :
    let log := errands x (actions ++ [a]) (empty name) []
    let errand := Errand.current log
    m.pendingPath = none ∧ m.path = errand.path ∧
      (m.status = .ready → ∃ number mesh,
        errand.load = some (Errand.loadOf m.path errand.root number) ∧
          errand.results = [(Errand.loadOf m.path errand.root number, .ok mesh)] ∧
            n.ports.firstValue? = some (.mesh mesh)) ∧
      (m.status ≠ .ready → n.ports.firstValue? = some .empty) ∧
      (m.error.isSome = true ↔ m.status = .invalid) ∧
      (∀ e ∈ log, e.Single) ∧ log.Pairwise Errand.Later := by
  have hreachable : (run actions (empty name)).Reachable := ⟨name, actions, rfl⟩
  have hbefore : Accounted x (errands x actions (empty name) []) (run actions (empty name)) :=
    Accounted.run ⟨name, [], rfl⟩ (fun n hn => nomatch hn) actions
  rw [run, List.foldl_append] at hn
  rw [errands_append]
  have hafter : m.pendingPath = none ∧ m.Accounts n.ports.firstValue?
      (a.record x (run actions (empty name)) (errands x actions (empty name) [])) := by
    cases a with
    | step poll dt => exact accounted_frame hreachable hbefore poll _ hn hm
    | tick poll now => exact accounted_frame hreachable hbefore poll _ hn hm
    | _ => exact nomatch ha
  obtain ⟨hpending, haccounts⟩ := hafter
  obtain ⟨v, hv, hstands⟩ := haccounts.stands hpending
  refine ⟨hpending, hstands.path, fun hready => ?_, fun hready => ?_, hstands.error,
    haccounts.orderly.single, haccounts.orderly.later⟩
  · obtain ⟨number, mesh, hload, hresults, hmesh⟩ := hstands.ready hready
    exact ⟨number, mesh, hload, hresults, hv.trans (congrArg some hmesh)⟩
  · exact hv.trans (congrArg some (hstands.empty hready))

/-- Loads give their results one after the other; a mesh has the number of its load. -/
def answers (last : Nat) : Poll := fun _ load =>
  if load.number ≤ last then .ready (.ok ⟨[Single.ofNat load.number]⟩) else .pending

/-- A mesh that is told a second path while the load of the first one is under way. -/
def overtaken : List Action :=
  [.create .mesh, .set ⟨0⟩ (.meshPath "a.obj"), .step Poll.none 0, .set ⟨0⟩ (.meshPath "b.obj"),
    .step (answers 0) 0]

end Graph

end Patchbay

/-! ## With the standard engine -/

namespace Patchbay.Graph

/-- The result of the first load comes too late, and that of the second one is shown. -/
theorem fetched_after_frame_of_overtaken :
    let actions := overtaken ++ [.step (answers 1) 0]
    ∃ n m, (run actions (empty "meshes")).node? ⟨0⟩ = some n ∧ n.behavior = .mesh m ∧
      m.status = .ready ∧ ∃ number mesh,
        (Errand.current (errands ⟨0⟩ actions (empty "meshes") [])).results =
          [(Errand.loadOf "b.obj" none number, .ok mesh)] ∧
        n.ports.firstValue? = some (.mesh mesh) := by
  have hnode : (run (overtaken ++ [.step (answers 1) 0]) (empty "meshes")).node? ⟨0⟩ = some _ := rfl
  obtain ⟨-, -, hready, -⟩ := fetched_after_frame "meshes" overtaken rfl hnode rfl
  obtain ⟨number, mesh, -, hresults, hmesh⟩ := hready rfl
  exact ⟨_, _, hnode, rfl, rfl, number, mesh, hresults, hmesh⟩

end Patchbay.Graph
