import JobmanControl.Catalog.Reports
import JobmanControl.Lifecycle.Coherence

/-!
The lifecycle in the store with all its calls. What is proved about the board of jobs holds
where targets, agents and logs have calls of their own: those calls leave the rows of the
lifecycle alone.
-/

namespace JobmanControl

open Relational Lifecycle Lifecycle.Board

/-- Two boards that show the same work. -/
structure Lifecycle.Board.SameRows (b b' : Board) : Prop where
  job : b'.job = b.job
  run : b'.run = b.run
  execution : b'.execution = b.execution
  assignment : b'.assignment = b.assignment
  event : b'.event = b.event
  collection : b'.collection = b.collection
  graph : b'.graph = b.graph
  node : b'.node = b.node
  edge : b'.edge = b.edge

theorem Lifecycle.Board.SameRows.sound {b b' : Board} (h : b.SameRows b') (hs : Sound b) :
    Sound b' := by
  have hcoupled := hs.coupled.congr h.job h.run h.execution h.assignment h.event
  obtain ⟨hjob, hrun, -, -, -, hcollection, hgraph, hnode, hedge⟩ := h
  obtain ⟨job, run, _, _, _, _, _, collection, graph, _, node, edge, _⟩ := b'
  subst hjob hrun hcollection hgraph hnode hedge
  refine ⟨hcoupled, ?_, ?_, ?_⟩
  · exact ⟨hs.wired.enrolled, hs.wired.published, hs.wired.housed, hs.wired.upstream,
      hs.wired.downstream⟩
  · exact ⟨hs.governed.dispatched, hs.governed.disposed⟩
  · exact fun j hstuck => hs.unstuck j ⟨hstuck.waiting, hstuck.finished, hstuck.refuted⟩

theorem Apart.sameRows {scheme : TokenScheme} {env : Env} {db db' : Db}
    (h : Apart scheme env db db') : db.board.SameRows db'.board := by
  have hwork := h.work
  simp only [Db.workTables, WorkTables.mk.injEq] at hwork
  obtain ⟨-, hcollections, -, hgraphs, hnodes, hedges, hjobs, hruns, hexecutions, hevents⟩ := hwork
  exact ⟨by simp only [Db.board, hjobs], by simp only [Db.board, hruns],
    by simp only [Db.board, hexecutions], funext h.offer, by simp only [Db.board, hevents],
    by simp only [Db.board, hcollections], by simp only [Db.board, hgraphs],
    by simp only [Db.board, hnodes], by simp only [Db.board, hedges]⟩

section Step

variable {platform : Platform} {db : Db}

theorem Operation.apply_moves (codec : Codec) (env : Env) (operation : Operation)
    (hs : Sound db.board) :
    Sound (operation.apply codec env db).board ∧
      Moves .anything db.board (operation.apply codec env db).board := by
  have hcall : ∀ op : Operation, Sound (Call.apply codec ⟨env, op⟩ db).board ∧
      Moves .anything db.board (Call.apply codec ⟨env, op⟩ db).board := fun op =>
    have heffect := effect_apply codec ⟨env, op⟩ hs.coupled hs.wired
    ⟨heffect.sound hs, heffect.moves.anything⟩
  cases operation with
  | configure configuration => exact ⟨hs, .refl⟩
  | _ => exact hcall _

theorem ServiceCall.sound (call : ServiceCall) (platform : Platform) (hs : Sound db.board) :
    Sound (call.apply platform db).board := by
  obtain ⟨operation, -, hwork⟩ | hapart := call.apart platform db
  · rw [hwork]
    exact (operation.apply_moves platform.codec call.env hs).1
  · exact hapart.sameRows.sound hs

/-- The limits of a collection are set once. -/
theorem ServiceCall.persists_collection (call : ServiceCall) (platform : Platform)
    (hs : Sound db.board) {c : Id} {limit : CollectionLimit}
    (h : db.board.collection c = some limit) :
    (call.apply platform db).board.collection c = some limit := by
  obtain ⟨operation, -, hwork⟩ | hapart := call.apart platform db
  · rw [hwork]
    exact ((operation.apply_moves platform.codec call.env hs).2.persists hs.coupled).collection
      c limit h
  · rw [hapart.sameRows.collection]
    exact h

theorem Service.Arises.sound (h : Service.Arises platform db) : Sound db.board :=
  h.invariant (P := fun d => Sound d.board) sound_empty
    fun _ call _ hs _ hstep => hstep ▸ call.sound platform hs

end Step

end JobmanControl
