import LibRtmp.Proofs.RelayOrder

namespace LibRtmp.Proofs

/-- A part of the server that connections, routes, queues and the cache have no say in. -/
def Bystander {α : Type} (φ : Server → α) : Prop :=
  ∀ (s : Server) (connections : List Conn) (activePublishRoutes : Routes)
    (externalRouteIds injectRouteLastSeen : AList (fun _ : RouteKey => Nat))
    (pendingInjectedRelay orphanedRelay : List RelayFrame) (cache : CacheTable),
    φ { s with
      connections, activePublishRoutes, externalRouteIds, injectRouteLastSeen,
      pendingInjectedRelay, orphanedRelay, cache } = φ s

theorem settings_bystander : Bystander Server.settings := fun _ _ _ _ _ _ _ _ => rfl

theorem offset_bystander : Bystander Server.relayLocalRrOffset := fun _ _ _ _ _ _ _ _ => rfl

theorem next_id_bystander : Bystander Server.nextConnId := fun _ _ _ _ _ _ _ _ => rfl

section Phases

variable {α : Type} {φ : Server → α} (hφ : Bystander φ)
include hφ

theorem put_same_part (s : Server) (i : Nat) (t : Session) : φ (s.put i t) = φ s :=
  hφ s _ _ _ _ _ _ _

theorem reap_same_part (codec : Codec) (input : PassInput) (p : Pass) :
    φ (p.reapTimedOutPendingAuth codec input).server = φ p.server := by
  refine Rows.foldl_same (fun p : Pass => φ p.server) (fun p i => ?_) _ p
  unfold Pass.reapOne
  split
  · rfl
  · dsimp only
    split <;> exact put_same_part hφ _ _ _

theorem drain_same_part (d : List Abandoned × Server) (l : List Nat) :
    φ (l.foldl Server.drainOne d).2 = φ d.2 := by
  refine Rows.foldl_same (fun d : List Abandoned × Server => φ d.2) (fun d i => ?_) l d
  unfold Server.drainOne
  split
  · rfl
  · exact hφ d.2 _ _ _ _ _ _ _

theorem drained_same_part (p : Pass) : φ p.drain.2.server = φ p.server :=
  drain_same_part hφ ([], p.server) _

theorem release_same_part (routes : List RouteKey) (s : Server) :
    φ (routes.foldl Server.releaseInjectedRoute s) = φ s := by
  refine Rows.foldl_same φ (fun s route => ?_) routes s
  unfold Server.releaseInjectedRoute
  dsimp only
  split
  · exact hφ s _ _ _ _ _ _ _
  · exact hφ s _ _ _ _ _ _ _

theorem recv_same_part (codec : Codec) (input : PassInput) (p : Pass) :
    φ (p.recvAndReapConnections codec input).server = φ p.server := by
  refine Rows.foldl_same (fun p : Pass => φ p.server) (fun p i => ?_) _ p
  unfold Pass.recvAndReapOne
  split
  · rfl
  · exact put_same_part hφ _ _ _

theorem detach_same_part (codec : Codec) (p : Pass) :
    φ (p.detachDisplacedRouteOwners codec).server = φ p.server := by
  refine Rows.foldl_same (fun p : Pass => φ p.server) (fun p i => ?_) _ p
  unfold Pass.detachOne
  split
  · rfl
  · split
    · rfl
    · exact put_same_part hφ _ _ _

theorem replay_same_part (codec : Codec) (p : Pass) :
    φ (p.replayInitFramesForNewPlayers codec).server = φ p.server := by
  refine Rows.foldl_same (fun p : Pass => φ p.server) (fun p i => ?_) _ p
  unfold Pass.replayOne
  split
  · rfl
  · exact put_same_part hφ _ _ _

theorem requeue_same_part (frames : List RelayFrame) (s : Server) :
    φ (frames.foldl Server.requeueRelayFrame s) = φ s := by
  refine Rows.foldl_same φ (fun s frame => ?_) frames s
  unfold Server.requeueRelayFrame
  split
  · exact hφ s _ _ _ _ _ _ _
  · split
    · exact hφ s _ _ _ _ _ _ _
    · obtain ⟨orphaned, heq⟩ := push_orphan_same s frame
      rw [heq]
      exact hφ s _ _ _ _ _ _ _

theorem flush_same_part (input : PassInput) (p : Pass) :
    φ (p.flushConnections input).server = φ p.server := by
  refine Rows.foldl_same (fun p : Pass => φ p.server) (fun p i => ?_) _ p
  unfold Pass.flushOne
  split
  · rfl
  · exact put_same_part hφ _ _ _

theorem remove_same_part (p : Pass) : φ p.removeClosedConnections.server = φ p.server := by
  refine Rows.foldl_same (fun p : Pass => φ p.server) (fun p i => ?_) _ p
  unfold Pass.removeOne
  split
  · rfl
  · rename_i c _
    obtain ⟨orphaned, heq⟩ := push_orphans_same
      (c.pendingRelay.filter (fun f => !isExternalPublisherId f.publisherConnId)) p.server
    unfold Server.releaseAllPublishRoutes
    dsimp only
    rw [heq]
    exact hφ p.server _ _ _ _ _ _ _

theorem receive_phase_same_part (cfg : CacheConfig) (input : PassInput) (s : Server) :
    φ (Pass.receivePhase cfg input s).2.server = φ s := by
  have hreap := reap_same_part hφ cfg.codec input { server := s }
  unfold Pass.receivePhase Pass.reapAndReceive
  dsimp only
  generalize Pass.reapTimedOutPendingAuth cfg.codec input { server := s } = p at hreap
  have hdrain := (drained_same_part hφ p).trans hreap
  generalize p.drain.2 = q at hdrain
  have hstale := (release_same_part hφ (q.server.staleInjectRoutes input.now) q.server).trans hdrain
  have hrecv := (recv_same_part hφ cfg.codec input { q with
    server := q.server.reapStaleInjectRoutes input.now
    trace := q.trace ++ (q.server.staleInjectRoutes input.now).map ServerEvent.released }).trans
    hstale
  generalize Pass.recvAndReapConnections cfg.codec input _ = v at hrecv ⊢
  exact (detach_same_part hφ cfg.codec v.drain.2).trans ((drained_same_part hφ v).trans hrecv)

end Phases

end LibRtmp.Proofs
