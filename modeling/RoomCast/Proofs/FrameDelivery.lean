import RoomCast.Proofs.ServerRun

namespace RoomCast

def Server.pushesAt (srv : Server) (i : Nat) : List String :=
  match srv.session? i with
  | some (s, c) => s.pushes c
  | none => []

theorem Server.pushesAt_eq {srv : Server} (hs : srv.Sound) {i : Nat} {s : Session} {c : Connection}
    (hi : srv.sessions[i]? = some s) (hc : srv.registry.roster[i]? = some c) :
    srv.pushesAt i = s.pushes c := by
  have hseat := (hs.seated i s c hi hc).1
  simp [pushesAt, session?, hi, Registry.connection?, hseat, hc]

theorem Server.pushesAt_none {srv : Server} {i : Nat} (h : srv.sessions.length ≤ i) :
    srv.pushesAt i = [] := by
  have hi := List.getElem?_eq_none_iff.mpr h
  simp [pushesAt, session?, hi]

/-- The frames of the batches that are for the connection on a seat, in the order of their commits. -/
def Registry.framesFor (r : Registry) (seat : Nat) (id : ConnectionId) (commits : List Commit) :
    List String :=
  (commits.filter fun commit => r.Reaches seat id commit.target).map (·.payload.frame)

/-- The frames that are on their way to the connection on a seat, in the order in which they will
come. -/
def Registry.comingTo (r : Registry) (seat : Nat) (id : ConnectionId) (jobs : List ShardJob) :
    List String :=
  (jobs.filter fun job => r.Reaches seat id job.target).map (·.frame)

namespace Server

/-- What has been queued for each open connection since some time, and then what is on its way to it,
are the batches that have been committed for it since. -/
def FramesKept (srv₀ srv : Server) (commits : List Commit) : Prop :=
  ∀ (i : Nat) (s : Session) (c : Connection), srv.sessions[i]? = some s →
    srv.registry.roster[i]? = some c → c.closed = false →
    s.pushes c ++ srv₀.registry.comingTo i c.id (srv.registry.pending (srv₀.registry.route c.id)) =
      srv₀.pushesAt i ++ srv₀.registry.framesFor i c.id commits

theorem FramesKept.push {srv₀ srv : Server} {commits : List Commit}
    (h : FramesKept srv₀ srv commits) (commit : Commit)
    (hq : (srv.registry.push ⟨commit.target, commit.payload⟩).1 = { srv.registry with
      queue := srv.registry.queue ++ [⟨commit.target, commit.payload⟩] }) :
    FramesKept srv₀ (srv.takeCommit commit) (commits ++ [commit]) := by
  intro i s c hi hc hopen
  rw [takeCommit_eq, hq] at hc ⊢
  have hold := h i s c hi hc hopen
  have hpending : ∀ k, Registry.pending { srv.registry with
      queue := srv.registry.queue ++ [⟨commit.target, commit.payload⟩] } k =
        srv.registry.pending k ++ [⟨commit.target, commit.payload.frame⟩] := by
    intro k
    simp [Registry.pending, PushJob.share]
  simp only [hpending, Registry.comingTo, Registry.framesFor, List.filter_append,
    List.map_append] at hold ⊢
  rw [← List.append_assoc, hold, List.append_assoc]
  congr 2
  by_cases hr : srv₀.registry.Reaches i c.id commit.target <;> simp [hr]

theorem pushes_send (s : Session) (c : Connection) {frame : String} (hf : isPush frame = true) :
    s.pushes { c with outbound := c.outbound ++ [frame] } = s.pushes c ++ [frame] := by
  simp [Session.pushes, Session.enqueued, hf]

theorem isPush_of_mem_pushesAt {srv : Server} {i : Nat} {frame : String}
    (h : frame ∈ srv.pushesAt i) : isPush frame = true := by
  unfold pushesAt at h
  split at h
  next => exact (List.mem_filter.mp h).2
  next => exact absurd h List.not_mem_nil

/-- What is on its way to an open connection are pushes. -/
theorem FramesKept.isPush_of_coming {srv₀ srv : Server} {commits : List Commit}
    (h : FramesKept srv₀ srv commits) {i : Nat} {s : Session} {c : Connection}
    (hi : srv.sessions[i]? = some s) (hc : srv.registry.roster[i]? = some c)
    (hopen : c.closed = false) {frame : String}
    (hf : frame ∈ srv₀.registry.comingTo i c.id (srv.registry.pending (srv₀.registry.route c.id))) :
    isPush frame = true := by
  have hm : frame ∈ srv₀.pushesAt i ++ srv₀.registry.framesFor i c.id commits := by
    rw [← h i s c hi hc hopen]
    exact List.mem_append_right _ hf
  rcases List.mem_append.mp hm with hm | hm
  · exact isPush_of_mem_pushesAt hm
  · obtain ⟨commit, _, rfl⟩ := List.mem_map.mp hm
    exact isPush_frame commit.payload

theorem FramesKept.pipeline {srv₀ srv : Server} {commits : List Commit} {r : Registry}
    (h : FramesKept srv₀ srv commits) (hs : srv.Sound) (ho : srv.registry.InOrder)
    (hshards : srv.registry.shards = srv₀.registry.shards)
    (hmove : srv.registry.PipelineStep r)
    (hskips : r.counters.shardSkips = srv.registry.counters.shardSkips)
    (hdrops : r.counters.outboundDrops = srv.registry.counters.outboundDrops) :
    FramesKept srv₀ { srv with registry := r } commits := by
  intro i s c' hi hc' hopen
  change r.roster[i]? = some c' at hc'
  obtain ⟨c, hc, hbare⟩ := getElem?_of_map_eq hmove.unmoved.bare.symm hc'
  have hclosed : c.closed = false := (congrArg Connection.closed hbare).trans hopen
  have hold := h i s c hi hc hclosed
  have hroute := (Registry.shards_congr hshards).1 c.id
  rcases hmove.pending ho hskips with ⟨hroster, _, hpending⟩ | ⟨k, shard, job, hd⟩
  · have hlt : srv₀.registry.route c.id < srv.registry.lanes.length := by
      rw [hs.fitted.lanes, ← hroute]
      exact Registry.route_lt hs.registry.shards_nonempty c.id
    rw [hroster, hc] at hc'
    cases Option.some.inj hc'
    rw [hpending _ hlt]
    exact hold
  · have hreach := Registry.reaches_congr hshards i c.id job.target
    by_cases hk : srv₀.registry.route c.id = k
    · have hfirst := hd.first
      rw [← hk] at hfirst
      rw [hfirst] at hold
      by_cases hr : srv₀.registry.Reaches i c.id job.target
      · -- the first frame that is coming is queued
        have hreceiving : c.receiving = true := by
          by_contra hn
          have hquit := (hs.seated i s c hi hc).2.queue (Bool.eq_false_iff.mpr hn)
          exact absurd (hquit.symm.trans hclosed) (by simp)
        have hpush : isPush job.frame = true := by
          refine h.isPush_of_coming hi hc hclosed ?_
          rw [hfirst]
          exact List.mem_map.mpr ⟨job, List.mem_filter.mpr ⟨List.mem_cons_self, by simp [hr]⟩, rfl⟩
        rw [hd.sent hs.registry hdrops hc hclosed hreceiving (hreach.mpr hr) (hroute.trans hk)] at hc'
        cases Option.some.inj hc'
        rw [pushes_send s c hpush]
        simpa [Registry.comingTo, hr] using hold
      · -- the frame is for others in the same shard
        rw [hd.passed hs.registry hc fun hn => hr (hreach.mp hn.1)] at hc'
        cases Option.some.inj hc'
        simpa [Registry.comingTo, hr] using hold
    · rw [hd.passed hs.registry hc fun hn => hk (hroute.symm.trans hn.2)] at hc'
      cases Option.some.inj hc'
      rw [hd.others _ hk]
      exact hold

theorem FramesKept.openSession {srv₀ srv : Server} {commits : List Commit}
    (h : FramesKept srv₀ srv commits) (hs : srv.Sound)
    (hshards : srv.registry.shards = srv₀.registry.shards)
    (hgrown : srv₀.sessions.length ≤ srv.sessions.length) (id : ConnectionId) (answersPings : Bool)
    (wire : WireMode) : FramesKept srv₀ (srv.openSession id answersPings wire).1 commits := by
  obtain ⟨s, c, he, _, _, hnew⟩ := srv.openSession_eq id answersPings wire
  have hnone : s.pushes c = [] := by rw [Session.pushes, hnew.queued]; rfl
  rw [he]
  intro i t d ht hd hopen
  change (srv.registry.roster ++ [c])[i]? = some d at hd
  have hlen := hs.seats
  rw [List.getElem?_append] at ht hd
  by_cases hi : i < srv.registry.roster.length
  · rw [if_pos (hlen ▸ hi)] at ht
    rw [if_pos hi] at hd
    exact h i t d ht hd hopen
  · -- nothing is for a seat that nobody has sat on
    have unreached : ∀ target, ¬srv₀.registry.Reaches i d.id target := by
      intro target hr
      obtain ⟨seated, hseated, _⟩ :=
        hs.registry.seated d.id i ((Registry.reaches_congr hshards i d.id target).mpr hr).1
      exact hi (List.getElem?_eq_some_iff.mp hseated).1
    rw [if_neg (hlen ▸ hi), List.getElem?_singleton] at ht
    rw [if_neg hi, List.getElem?_singleton] at hd
    split at hd
    next hz =>
      rw [if_pos (by omega)] at ht
      cases Option.some.inj ht
      cases Option.some.inj hd
      rw [hnone, pushesAt_none (by omega)]
      simp [Registry.comingTo, Registry.framesFor, unreached]
    next => simp at hd

theorem FramesKept.session {srv₀ srv srv' : Server} {commits : List Commit}
    (h : FramesKept srv₀ srv commits) (hs : srv.Sound) {i : Nat} {s s' : Session}
    {c c' : Connection} (hstep : srv.SessionStep srv' i s s' c c') :
    FramesKept srv₀ srv' commits := by
  intro j t d ht hd hopen
  have hpending := fun k => (hstep.seat.pipeline.pending k).1
  rw [hstep.session_at] at ht
  rw [hstep.seat.roster] at hd
  by_cases hj : i = j
  · subst hj
    rw [if_pos rfl] at ht hd
    cases Option.some.inj ht
    cases Option.some.inj hd
    have hclosed : c.closed = false := by
      by_contra hn
      exact absurd ((hstep.closed (by simpa using hn)).symm.trans hopen) (by simp)
    have hid : c'.id = c.id := by
      have hfits := (hs.seated i s c hstep.session hstep.connection).2
      exact hstep.fits.id.symm.trans (hstep.same.1.trans hfits.id)
    rw [hstep.pushes hopen, hpending, hid]
    exact h i s c hstep.session hstep.connection hclosed
  · rw [if_neg hj] at ht hd
    rw [hpending]
    exact h j t d ht hd hopen

end Server

/-- Nothing that is for a room reaches a connection that is not a member of it. -/
theorem Registry.framesFor_outsider {r : Registry} {name : String} {id : ConnectionId}
    (h : ¬r.IsMember name id) (seat : Nat) (commits : List Commit) :
    r.framesFor seat id commits =
      r.framesFor seat id (commits.filter fun commit => commit.key ≠ .room name) := by
  have outside : ∀ commit : Commit, r.Reaches seat id commit.target → commit.key ≠ .room name := by
    intro commit hr hk
    rw [Commit.target, hk] at hr
    exact h hr.2
  rw [framesFor, framesFor, List.filter_filter]
  congr 1
  apply List.filter_congr
  intro commit _
  by_cases hr : r.Reaches seat id commit.target
  · simp [hr, outside commit hr]
  · simp [hr]

end RoomCast
