import NanoDB.Raft.Election

/-!
# Log matching

In runs without compaction every node's log is, up to each of its entries, the log
of the leader of that entry's term, and every request in flight carries a slice of
its leader's log.  This holds although a follower truncates its log at every
nonempty request: what it truncates to is again a prefix of a leader's log.

Main results:

- Theorem {lit}`LogInv.step`: every transition but a compaction keeps the log
  invariant.
- Theorem {lit}`log_matching`: two logs with entries of one term at one index agree
  up to that index, and a leader's log is only appended to during its term.
-/

namespace NanoDB.Raft

open Lib RaftNode

/-! ## Requests that carry a slice of the leader's log -/

/-- The request was built from the log of its term's leader. -/
structure AppendOk (h : History) (req : AppendEntriesRequest) : Prop where
  leader : h.leader req.term = some req.leaderId
  prev_le : req.prevLogIndex ≤ (h.lead req.term).length
  prev_term : 0 < req.prevLogIndex → ∃ e, (h.lead req.term)[req.prevLogIndex - 1]? = some e ∧
    e.term = req.prevLogTerm
  slice : (h.lead req.term).take req.prevLogIndex ++ newEntries req <+: h.lead req.term

theorem AppendOk.mono {h h' : History} {req : AppendEntriesRequest} (hok : AppendOk h req)
    (hext : h.Extends h') : AppendOk h' req where
  leader := hext.leader _ _ hok.leader
  prev_le := hok.prev_le.trans (hext.lead _).length_le
  prev_term hpos := by
    obtain ⟨e, he, hterm⟩ := hok.prev_term hpos
    refine ⟨e, ?_, hterm⟩
    obtain ⟨r, hr⟩ := hext.lead req.term
    rw [← hr, List.getElem?_append_left (List.getElem?_eq_some_iff.mp he).1, he]
  slice := by
    rw [Ledger.take_lead_eq (hext.lead _) hok.prev_le]
    exact hok.slice.trans (hext.lead _)

theorem length_newEntries (req : AppendEntriesRequest) :
    (newEntries req).length = req.entries.length := by
  simp [newEntries]

/-- The indices a request reaches are in its leader's log. -/
theorem AppendOk.reach_le {h : History} {req : AppendEntriesRequest} (hok : AppendOk h req) :
    req.prevLogIndex + req.entries.length ≤ (h.lead req.term).length := by
  have := hok.slice.length_le
  simpa [length_newEntries, Nat.min_eq_left hok.prev_le] using this

/-- Without a snapshot, the entries from an index on are the rest of the list. -/
theorem entriesFrom_of_noSnapshot {log : RaftLog} (hlog : log.NoSnapshot) {nextIdx : Nat}
    (hpos : 1 ≤ nextIdx) :
    (entriesFrom log nextIdx).map (fun e => (⟨e.term, e.command⟩ : PersistedEntry)) =
      log.entries.drop (nextIdx - 1) := by
  apply List.ext_getElem?
  intro j
  simp only [entriesFrom, List.map_map, List.getElem?_map, RaftLog.lastIndex_of_noSnapshot hlog,
    List.getElem?_drop]
  have hidx : nextIdx - 1 + j = nextIdx + j - 1 := by omega
  by_cases hj : j < log.entries.length + 1 - nextIdx
  · have hlt : nextIdx - 1 + j < log.entries.length := by omega
    rw [List.getElem?_range hj, List.getElem?_eq_getElem hlt]
    simp only [Option.map_some, Function.comp_apply,
      RaftLog.termAt_of_noSnapshot hlog (show 0 < nextIdx + j by omega),
      RaftLog.commandAt_of_noSnapshot hlog (show 0 < nextIdx + j by omega), ← hidx,
      List.getElem?_eq_getElem hlt, Option.getD_some]
  · rw [List.getElem?_eq_none (by simpa using hj), List.getElem?_eq_none (by omega)]
    rfl

/-- If the consistency check of a request passes, the node agrees with the
request's leader up to the previous index. -/
theorem take_eq_of_prevMatches {h : History} {node : RaftNode} {req : AppendEntriesRequest}
    (hcoh : h.Coherent PersistedEntry.term) (hok : AppendOk h req)
    (hlog : node.log.NoSnapshot) (hfollow : Follows PersistedEntry.term h.lead node.log.entries)
    (hprev : node.prevMatches req = true) :
    node.log.entries.take req.prevLogIndex = (h.lead req.term).take req.prevLogIndex := by
  rcases Nat.eq_zero_or_pos req.prevLogIndex with hzero | hpos
  · simp [hzero]
  · obtain ⟨e, he, hterm⟩ := hok.prev_term hpos
    simp only [prevMatches, hpos, hlog.1, if_true, Bool.and_eq_true,
      decide_eq_true_eq, RaftLog.lastIndex_of_noSnapshot hlog,
      RaftLog.termAt_of_noSnapshot hlog hpos, RaftLog.hasRealEntryAt] at hprev
    have hlt : req.prevLogIndex - 1 < node.log.entries.length := by omega
    have hget : node.log.entries[req.prevLogIndex - 1]? =
        some node.log.entries[req.prevLogIndex - 1] := List.getElem?_eq_getElem hlt
    rw [hget] at hprev
    have htake := hfollow.take_eq_of_term_eq (hcoh.lead_follows req.term) hget he
      (by simpa [hterm] using hprev.2)
    rwa [Nat.sub_add_cancel hpos] at htake

/-- An accepted request leaves a prefix of the leader's log, or the old log when it
carries no entries. -/
theorem acceptedLog_entries {h : History} {node : RaftNode} {req : AppendEntriesRequest}
    (hcoh : h.Coherent PersistedEntry.term) (hok : AppendOk h req)
    (hlog : node.log.NoSnapshot) (hfollow : Follows PersistedEntry.term h.lead node.log.entries)
    (hprev : node.prevMatches req = true) (hne : newEntries req ≠ []) :
    (acceptedLog node.log req).entries =
      (h.lead req.term).take (req.prevLogIndex + req.entries.length) := by
  rw [acceptedLog, if_neg hne, RaftLog.truncateAndAppend_of_noSnapshot hlog,
    take_eq_of_prevMatches hcoh hok hlog hfollow hprev]
  have hlen : ((h.lead req.term).take req.prevLogIndex ++ newEntries req).length =
      req.prevLogIndex + req.entries.length := by
    simp [length_newEntries, Nat.min_eq_left hok.prev_le]
  rw [← hlen]
  exact List.prefix_iff_eq_take.mp hok.slice

/-! ## The log invariant -/

/-- Logs, requests and pending calls fit the leaders' logs. -/
structure LogInv (s : ClusterState) (h : History) : Prop where
  noSnapshot : ∀ n, (s.node n).log.NoSnapshot
  noInstall : ∀ dst req, .installSnapshot dst req ∉ s.net
  noInstallReply : ∀ src req resp, .installSnapshotReply src req resp ∉ s.net
  coherent : h.Coherent PersistedEntry.term
  follows : ∀ n, Follows PersistedEntry.term h.lead (s.node n).log.entries
  bound : ∀ n, ∀ e ∈ (s.node n).log.entries, e.term ≤ (s.node n).state.currentTerm
  leading : ∀ n, h.leader (s.node n).state.currentTerm = some n →
    (s.node n).log.entries = h.lead (s.node n).state.currentTerm
  next : ∀ n p, (s.node n).role = .leader → 1 ≤ (s.node n).nextIndex p ∧
    (s.node n).nextIndex p ≤ (s.node n).log.entries.length + 1
  tasks : ∀ n task, (n, task) ∈ s.tasks ∨ (n, task) ∈ s.checked → task.peerId ≠ n ∧
    1 ≤ task.nextIdx ∧ task.nextIdx ≤ (h.lead task.term).length + 1
  append : ∀ dst req, .appendEntries dst req ∈ s.net → dst ≠ req.leaderId ∧ AppendOk h req
  reply : ∀ src req resp, .appendEntriesReply src req resp ∈ s.net → AppendOk h req

namespace LogInv

variable {c : Membership} {s s' : ClusterState} {h h' : History}

theorem init (c : Membership) : LogInv (ClusterState.init c) {} where
  noSnapshot _ := ⟨rfl, rfl⟩
  noInstall _ _ := List.not_mem_nil
  noInstallReply _ _ _ := List.not_mem_nil
  coherent :=
    { lead_nil := fun _ _ => rfl
      lead_le := fun _ _ he => absurd he List.not_mem_nil
      lead_follows := fun _ => follows_nil
      start_isPrefix := fun _ _ hn => by simp at hn
      start_lt := fun _ _ hn => by simp at hn }
  follows _ := follows_nil
  bound _ _ he := absurd he List.not_mem_nil
  leading _ hn := by simp at hn
  next _ _ hrole := by simp [ClusterState.init, openFiles] at hrole
  tasks _ _ hm := by simp [ClusterState.init] at hm
  append _ _ hm := absurd hm List.not_mem_nil
  reply _ _ _ hm := absurd hm List.not_mem_nil

/-- How one node may change when no log changes. -/
structure SameLog (node node' : RaftNode) : Prop where
  log : node'.log = node.log
  term : node.state.currentTerm ≤ node'.state.currentTerm
  next : node'.role = .leader → ∀ p, 1 ≤ node'.nextIndex p ∧
    node'.nextIndex p ≤ node'.log.entries.length + 1

/-- Transitions that change no log and no leader keep the invariant. -/
theorem of_sameLog (hvote : VoteInv c s h) (hinv : LogInv s h)
    (hsame : ∀ n, SameLog (s.node n) (s'.node n)) (hlead : h'.lead = h.lead)
    (hleader : h'.leader = h.leader) (hstart : h'.start = h.start)
    (htasks : ∀ n task, (n, task) ∈ s'.tasks ∨ (n, task) ∈ s'.checked → task.peerId ≠ n ∧
      1 ≤ task.nextIdx ∧ task.nextIdx ≤ (h.lead task.term).length + 1)
    (hinstall : ∀ dst req, .installSnapshot dst req ∉ s'.net)
    (hinstallReply : ∀ src req resp, .installSnapshotReply src req resp ∉ s'.net)
    (happend : ∀ dst req, .appendEntries dst req ∈ s'.net → dst ≠ req.leaderId ∧ AppendOk h req)
    (hreply : ∀ src req resp, .appendEntriesReply src req resp ∈ s'.net → AppendOk h req) :
    LogInv s' h' := by
  have hok : ∀ req, AppendOk h req → AppendOk h' req := by
    intro req hok
    exact ⟨by rw [hleader]; exact hok.leader, by rw [hlead]; exact hok.prev_le,
      by rw [hlead]; exact hok.prev_term, by rw [hlead]; exact hok.slice⟩
  constructor
  case noSnapshot =>
    intro n
    rw [(hsame n).log]
    exact hinv.noSnapshot n
  case noInstall => exact hinstall
  case noInstallReply => exact hinstallReply
  case coherent => exact hinv.coherent.congr hleader hlead hstart
  case follows =>
    intro n
    rw [(hsame n).log, hlead]
    exact hinv.follows n
  case bound =>
    intro n e he
    rw [(hsame n).log] at he
    exact (hinv.bound n e he).trans (hsame n).term
  case leading =>
    intro n hn
    rw [hleader] at hn
    have heq : (s'.node n).state.currentTerm = (s.node n).state.currentTerm :=
      le_antisymm (hvote.leader_term_le hn) (hsame n).term
    rw [(hsame n).log, hlead, heq]
    exact hinv.leading n (heq ▸ hn)
  case next => exact fun n p hrole => (hsame n).next hrole p
  case tasks =>
    rw [hlead]
    exact htasks
  case append => exact fun dst req hm => (happend dst req hm).imp_right (hok req)
  case reply => exact fun src req resp hm => hok req (hreply src req resp hm)

/-- A node that keeps its log and bookkeeping, or gives up leadership. -/
theorem sameLog_of (hinv : LogInv s h) {n : Int} {node : RaftNode}
    (hlog : node.log = (s.node n).log)
    (hterm : (s.node n).state.currentTerm ≤ node.state.currentTerm)
    (hnext : node.role = .leader →
      (s.node n).role = .leader ∧ node.nextIndex = (s.node n).nextIndex)
    (m : Int) : SameLog (s.node m) (Function.update s.node n node m) := by
  by_cases hm : m = n
  · subst hm
    rw [Function.update_self]
    refine ⟨hlog, hterm, fun hrole p => ?_⟩
    obtain ⟨hold, heq⟩ := hnext hrole
    rw [heq, hlog]
    exact hinv.next m p hold
  · rw [Function.update_of_ne hm]
    exact ⟨rfl, le_rfl, fun hrole p => hinv.next m p hrole⟩

/-- A won election: the candidate's log becomes the first log of the term. -/
theorem of_elect (hinv : LogInv s h) {n : Int} {t : Nat} {voters : Finset Int}
    (hfresh : h.leader t = none) (hterm : (s.node n).state.currentTerm = t)
    (hother : ∀ m, m ≠ n → s'.node m = s.node m) (hlog : (s'.node n).log = (s.node n).log)
    (hstate : (s'.node n).state = (s.node n).state)
    (hnext : ∀ p, (s'.node n).nextIndex p = (s.node n).log.entries.length + 1)
    (htasks : s'.tasks = s.tasks) (hchecked : s'.checked = s.checked) (hnet : s'.net = s.net) :
    LogInv s' (h.elect t n (s.node n).log.entries voters) := by
  have hnil := hinv.coherent.lead_nil t hfresh
  have hext := Ledger.Extends.elect hfresh hnil n (s.node n).log.entries voters
  have hself : (h.elect t n (s.node n).log.entries voters).lead t = (s.node n).log.entries := by
    simp [Ledger.elect]
  have hlogs : ∀ m, (s'.node m).log = (s.node m).log := by
    intro m
    by_cases hm : m = n
    · rw [hm, hlog]
    · rw [hother m hm]
  have hstates : ∀ m, (s'.node m).state = (s.node m).state := by
    intro m
    by_cases hm : m = n
    · rw [hm, hstate]
    · rw [hother m hm]
  constructor
  case noSnapshot =>
    intro m
    rw [hlogs]
    exact hinv.noSnapshot m
  case noInstall =>
    rw [hnet]
    exact hinv.noInstall
  case noInstallReply =>
    rw [hnet]
    exact hinv.noInstallReply
  case coherent => exact hinv.coherent.elect hfresh (hinv.follows n) (hterm ▸ hinv.bound n)
  case follows =>
    intro m
    rw [hlogs]
    exact (hinv.follows m).mono hext.lead
  case bound =>
    intro m
    rw [hlogs, hstates]
    exact hinv.bound m
  case leading =>
    intro m hm
    rw [hstates] at hm ⊢
    rw [hlogs]
    by_cases ht : (s.node m).state.currentTerm = t
    · rw [ht] at hm ⊢
      have hmn : n = m := by simpa [Ledger.elect] using hm
      rw [hself, hmn]
    · simp only [Ledger.elect, Function.update_of_ne ht] at hm ⊢
      exact hinv.leading m hm
  case next =>
    intro m p hrole
    by_cases hm : m = n
    · subst hm
      rw [hnext, hlog]
      omega
    · rw [hother m hm] at hrole ⊢
      exact hinv.next m p hrole
  case tasks =>
    intro m task hm
    rw [htasks, hchecked] at hm
    obtain ⟨hp, hpos, hle⟩ := hinv.tasks m task hm
    have := (hext.lead task.term).length_le
    exact ⟨hp, hpos, by omega⟩
  case append =>
    intro dst req hm
    exact (hinv.append dst req (hnet ▸ hm)).imp_right fun hok => hok.mono hext
  case reply => exact fun src req resp hm => (hinv.reply src req resp (hnet ▸ hm)).mono hext

/-- A proposal: the leader's log and the ledger's copy of it grow together. -/
theorem of_propose (hvote : VoteInv c s h) (hinv : LogInv s h) {n : Int} {e : PersistedEntry}
    (hrole : (s.node n).role = .leader) (he : e.term = (s.node n).state.currentTerm)
    (hother : ∀ m, m ≠ n → s'.node m = s.node m)
    (hlog : (s'.node n).log = (s.node n).log.append e.term e.command)
    (hstate : (s'.node n).state = (s.node n).state)
    (hnext : (s'.node n).nextIndex = (s.node n).nextIndex)
    (htasks : s'.tasks = s.tasks) (hchecked : s'.checked = s.checked) (hnet : s'.net = s.net) :
    LogInv s' (h.extend (s.node n).state.currentTerm n e) := by
  have hn := hvote.leads n hrole
  have hext := Ledger.Extends.extend h (s.node n).state.currentTerm n e
  have hold := hinv.leading n hn
  have hself : (h.extend (s.node n).state.currentTerm n e).lead (s.node n).state.currentTerm =
      h.lead (s.node n).state.currentTerm ++ [e] := by simp [Ledger.extend]
  have hentries : (s'.node n).log.entries = h.lead (s.node n).state.currentTerm ++ [e] := by
    rw [hlog, RaftLog.append_entries, hold]
  have hcoh := hinv.coherent.extend hn he
  constructor
  case noSnapshot =>
    intro m
    by_cases hm : m = n
    · subst hm
      rw [hlog]
      exact (hinv.noSnapshot m).append _ _
    · rw [hother m hm]
      exact hinv.noSnapshot m
  case noInstall =>
    rw [hnet]
    exact hinv.noInstall
  case noInstallReply =>
    rw [hnet]
    exact hinv.noInstallReply
  case coherent => exact hcoh
  case follows =>
    intro m
    by_cases hm : m = n
    · subst hm
      rw [hentries, ← hself]
      exact hcoh.lead_follows _
    · rw [hother m hm]
      exact (hinv.follows m).mono hext.lead
  case bound =>
    intro m e' he'
    by_cases hm : m = n
    · subst hm
      rw [hentries, List.mem_append, List.mem_singleton] at he'
      rw [hstate]
      rcases he' with he' | rfl
      · exact hinv.bound m e' (hold ▸ he')
      · exact he.le
    · rw [hother m hm] at he' ⊢
      exact hinv.bound m e' he'
  case leading =>
    intro m hm
    by_cases hmn : m = n
    · subst hmn
      rw [hstate, hentries, hself]
    · rw [hother m hmn] at hm ⊢
      have hne : (s.node m).state.currentTerm ≠ (s.node n).state.currentTerm := by
        intro heq
        rw [heq, show (h.extend _ n e).leader _ = h.leader _ from rfl, hn] at hm
        exact hmn (Option.some.inj hm).symm
      simp only [Ledger.extend, Function.update_of_ne hne]
      exact hinv.leading m hm
  case next =>
    intro m p hr
    by_cases hm : m = n
    · subst hm
      have := hinv.next m p hrole
      rw [hnext, hlog, RaftLog.append_entries, List.length_append, List.length_singleton]
      omega
    · rw [hother m hm] at hr ⊢
      exact hinv.next m p hr
  case tasks =>
    intro m task hm
    rw [htasks, hchecked] at hm
    obtain ⟨hp, hpos, hle⟩ := hinv.tasks m task hm
    have := (hext.lead task.term).length_le
    exact ⟨hp, hpos, by omega⟩
  case append =>
    intro dst req hm
    exact (hinv.append dst req (hnet ▸ hm)).imp_right fun hok => hok.mono hext
  case reply => exact fun src req resp hm => (hinv.reply src req resp (hnet ▸ hm)).mono hext

/-- An accepted request: the follower's log becomes a prefix of the leader's. -/
theorem of_accept (hinv : LogInv s h) {n : Int}
    {req : AppendEntriesRequest} {ack : Nat} (hmem : .appendEntries n req ∈ s.net)
    (hle : (s.node n).state.currentTerm ≤ req.term) (hprev : (s.node n).prevMatches req = true)
    (hother : ∀ m, m ≠ n → s'.node m = s.node m)
    (hlog : (s'.node n).log = acceptedLog (s.node n).log req)
    (hterm : (s'.node n).state.currentTerm = req.term) (hrole : (s'.node n).role = .follower)
    (htasks : s'.tasks = s.tasks) (hchecked : s'.checked = s.checked)
    {resp : AppendEntriesResponse} (hnet : s'.net = .appendEntriesReply n req resp :: s.net) :
    LogInv s' (h.acknowledge req.term n ack) := by
  obtain ⟨hdst, hok⟩ := hinv.append n req hmem
  have hcoh := hinv.coherent
  -- either nothing changes or the log becomes a prefix of the leader's
  have hcases : (s'.node n).log = (s.node n).log ∨
      (s'.node n).log.entries = (h.lead req.term).take (req.prevLogIndex + req.entries.length) := by
    by_cases hne : newEntries req = []
    · exact .inl (by rw [hlog, acceptedLog, if_pos hne])
    · rw [hlog]
      exact .inr (acceptedLog_entries hcoh hok (hinv.noSnapshot n) (hinv.follows n) hprev hne)
  constructor
  case noSnapshot =>
    intro m
    by_cases hm : m = n
    · subst hm
      rw [hlog, acceptedLog]
      split
      · exact hinv.noSnapshot m
      · exact (hinv.noSnapshot m).truncateAndAppend _ _
    · rw [hother m hm]
      exact hinv.noSnapshot m
  case noInstall =>
    intro dst r hm
    rw [hnet] at hm
    exact hinv.noInstall dst r (by simpa using hm)
  case noInstallReply =>
    intro src r rs hm
    rw [hnet] at hm
    exact hinv.noInstallReply src r rs (by simpa using hm)
  case coherent => exact hcoh.congr rfl rfl rfl
  case follows =>
    intro m
    by_cases hm : m = n
    · subst hm
      rcases hcases with hsame | hpre
      · rw [hsame]
        exact hinv.follows m
      · rw [hpre]
        exact (hcoh.lead_follows req.term).of_isPrefix (List.take_prefix _ _)
    · rw [hother m hm]
      exact hinv.follows m
  case bound =>
    intro m e he
    by_cases hm : m = n
    · subst hm
      rw [hterm]
      rcases hcases with hsame | hpre
      · exact (hinv.bound m e (hsame ▸ he)).trans hle
      · rw [hpre] at he
        exact hcoh.lead_le req.term e (List.mem_of_mem_take he)
    · rw [hother m hm] at he ⊢
      exact hinv.bound m e he
  case leading =>
    intro m hm
    by_cases hmn : m = n
    · subst hmn
      rw [hterm, show (h.acknowledge req.term m ack).leader = h.leader from rfl, hok.leader] at hm
      exact absurd (Option.some.inj hm).symm hdst
    · rw [hother m hmn] at hm ⊢
      exact hinv.leading m hm
  case next =>
    intro m p hr
    by_cases hm : m = n
    · subst hm
      rw [hrole] at hr
      contradiction
    · rw [hother m hm] at hr ⊢
      exact hinv.next m p hr
  case tasks =>
    rw [htasks, hchecked]
    exact hinv.tasks
  case append =>
    intro dst r hm
    rw [hnet] at hm
    exact (hinv.append dst r (by simpa using hm)).imp_right
      fun hr => hr.mono (Ledger.Extends.acknowledge ..)
  case reply =>
    intro src r rs hm
    rw [hnet, List.mem_cons, Message.appendEntriesReply.injEq] at hm
    rcases hm with ⟨-, rfl, -⟩ | hm
    · exact hok.mono (Ledger.Extends.acknowledge ..)
    · exact (hinv.reply src r rs hm).mono (Ledger.Extends.acknowledge ..)

/-- A request that a leader builds carries a slice of its log. -/
theorem appendOk_of_build (hvote : VoteInv c s h) (hinv : LogInv s h) {n : Int} {task : SendTask}
    {req : AppendEntriesRequest} (htask : (n, task) ∈ s.checked)
    (hreq : (s.node n).buildAppendEntries task = some req) :
    task.peerId ≠ req.leaderId ∧ AppendOk h req := by
  obtain ⟨hrole, hterm, rfl⟩ := buildAppendEntries_eq_some hreq
  obtain ⟨hpeer, hpos, hle⟩ := hinv.tasks n task (.inr htask)
  have hn : h.leader task.term = some n := hterm ▸ hvote.leads n hrole
  have hentries : (s.node n).log.entries = h.lead task.term :=
    hterm ▸ hinv.leading n (hvote.leads n hrole)
  have hlog := hinv.noSnapshot n
  refine ⟨by simpa [hvote.nodeId n] using hpeer, ?_, ?_, ?_, ?_⟩
  · simpa [hvote.nodeId n] using hn
  · dsimp only
    omega
  · dsimp only
    intro hprev
    have hlt : task.nextIdx - 1 - 1 < (h.lead task.term).length := by omega
    refine ⟨_, List.getElem?_eq_getElem hlt, ?_⟩
    rw [RaftLog.termAt_of_noSnapshot hlog hprev, hentries, List.getElem?_eq_getElem hlt]
    rfl
  · simp only [newEntries, entriesFrom_of_noSnapshot hlog hpos, hentries, List.take_append_drop]
    exact List.prefix_rfl

/-- The bookkeeping of a leader after a reply stays inside its log. -/
theorem next_of_reply (hvote : VoteInv c s h) (hinv : LogInv s h) {src : Int}
    {req : AppendEntriesRequest} {resp : AppendEntriesResponse}
    (hmem : .appendEntriesReply src req resp ∈ s.net) {n : Int}
    (hrole : ((s.node n).handleAppendEntriesReply src req resp).role = .leader) (p : Int) :
    1 ≤ ((s.node n).handleAppendEntriesReply src req resp).nextIndex p ∧
      ((s.node n).handleAppendEntriesReply src req resp).nextIndex p ≤
        (s.node n).log.entries.length + 1 := by
  unfold handleAppendEntriesReply at hrole ⊢
  dsimp only at hrole ⊢
  split_ifs at hrole ⊢ with hnew hstale hsucc hmax hdec
  · simp [becomeFollower] at hrole
  · exact hinv.next n p hrole
  all_goals
    rw [not_or, not_not, not_not] at hstale
    have hlead := hvote.leads n hstale.1
    have hentries := hinv.leading n hlead
    have hreach := (hinv.reply src req resp hmem).reach_le
    have hold := hinv.next n p hstale.1
    have holdSrc := hinv.next n src hstale.1
    rw [← hstale.2, ← hentries] at hreach
    have hset : ∀ k, 1 ≤ k → k ≤ (s.node n).log.entries.length + 1 →
        1 ≤ Function.update (s.node n).nextIndex src k p ∧
          Function.update (s.node n).nextIndex src k p ≤ (s.node n).log.entries.length + 1 := by
      intro k hpos hle
      by_cases hp : p = src
      · simpa [hp] using And.intro hpos hle
      · simpa [hp] using hold
  · simpa using hset _ (by omega) (by omega)
  · simpa using hset _ (by omega) (by omega)
  · simpa using hset _ (by omega) (by omega)
  · exact hold

/-- The calls that replication starts are for indices of the leader's log. -/
theorem task_of_replicate (hvote : VoteInv c s h) (hinv : LogInv s h) {n : Int} {task : SendTask}
    (htask : task ∈ (s.node n).replicateToFollowers) :
    task.peerId ≠ n ∧ 1 ≤ task.nextIdx ∧ task.nextIdx ≤ (h.lead task.term).length + 1 := by
  unfold replicateToFollowers at htask
  split_ifs at htask with hrole
  · contradiction
  · rw [not_not] at hrole
    obtain ⟨p, hp, rfl⟩ := List.mem_map.mp htask
    have hne : p ≠ n := by
      simpa [stubs, hvote.nodeId n] using (List.mem_filter.mp (List.mem_dedup.mp hp)).2
    have hnext := hinv.next n p hrole
    rw [hinv.leading n (hvote.leads n hrole)] at hnext
    exact ⟨hne, hnext⟩

/-- What an accepted request does to the follower. -/
theorem accepted_frame {node : RaftNode} {req : AppendEntriesRequest}
    (h : (node.handleAppendEntries req).2.success = true) :
    node.state.currentTerm ≤ req.term ∧ node.prevMatches req = true ∧
      (node.handleAppendEntries req).1.log = acceptedLog node.log req ∧
      (node.handleAppendEntries req).1.state.currentTerm = req.term ∧
      (node.handleAppendEntries req).1.role = .follower := by
  rcases handleAppendEntries_cases node req with ⟨hno, -⟩ |
    ⟨-, hle, hprev, node', hterm, hrole, hlog, -, -, -, heq⟩
  · rw [hno] at h
    contradiction
  · exact ⟨hle, hprev, by rw [heq, acceptEntries_log, hlog],
      by rw [heq, acceptEntries_state, hterm],
      by rw [heq, acceptEntries_role, hrole]⟩

/-- A rejected request leaves a follower, or a leader of a newer term as it was. -/
theorem sameLog_rejected (hinv : LogInv s h) {n : Int} {req : AppendEntriesRequest}
    (hno : ((s.node n).handleAppendEntries req).2.success = false) (m : Int) :
    SameLog (s.node m) (Function.update s.node n ((s.node n).handleAppendEntries req).1 m) := by
  have hlog : ((s.node n).handleAppendEntries req).1.log = (s.node n).log := by
    rcases handleAppendEntries_cases (s.node n) req with ⟨-, hlog, -⟩ | ⟨hyes, -⟩
    · exact hlog
    · rw [hno] at hyes
      contradiction
  refine hinv.sameLog_of hlog (Quiet.handleAppendEntries _ _).voteKept.1 ?_ m
  unfold handleAppendEntries at hno ⊢
  dsimp only at hno ⊢
  split_ifs at hno ⊢ with hlt hprev
  · unfold observeTerm
    split_ifs with hnew
    · intro hrole
      simp [becomeFollower] at hrole
    · exact fun hrole => ⟨hrole, rfl⟩
  · intro hrole
    simp at hrole

/-- Whether the message belongs to an election. -/
def isVote : Message → Bool
  | .requestVote .. => true
  | .requestVoteReply .. => true
  | _ => false

/-- Sections that change no log, no call in flight and at most send votes. -/
theorem of_votes (hvote : VoteInv c s h) (hinv : LogInv s h)
    (hsame : ∀ n, SameLog (s.node n) (s'.node n))
    (hhist : h'.lead = h.lead ∧ h'.leader = h.leader ∧ h'.start = h.start)
    (htasks : s'.tasks = s.tasks) (hchecked : s'.checked = s.checked)
    (hnet : ∀ m ∈ s'.net, m ∈ s.net ∨ isVote m = true) : LogInv s' h' := by
  have hold : ∀ m ∈ s'.net, isVote m = false → m ∈ s.net := by
    intro m hm hno
    rcases hnet m hm with hm | hyes
    · exact hm
    · rw [hno] at hyes
      contradiction
  refine hinv.of_sameLog hvote hsame hhist.1 hhist.2.1 hhist.2.2 ?_ ?_ ?_ ?_ ?_
  · rw [htasks, hchecked]
    exact hinv.tasks
  · exact fun dst req hm => hinv.noInstall dst req (hold _ hm rfl)
  · exact fun src req resp hm => hinv.noInstallReply src req resp (hold _ hm rfl)
  · exact fun dst req hm => hinv.append dst req (hold _ hm rfl)
  · exact fun src req resp hm => hinv.reply src req resp (hold _ hm rfl)

/-- Stepping down changes no log. -/
theorem sameLog_observeTerm (hinv : LogInv s h) (n : Int) (term : Nat) (m : Int) :
    SameLog (s.node m) (Function.update s.node n ((s.node n).observeTerm term) m) := by
  refine hinv.sameLog_of (by simp) ?_ ?_ m
  · rcases (Quiet.observeTerm (s.node n) term).state with hs | ⟨hlt, -, -⟩
    · rw [hs]
    · exact hlt.le
  · unfold observeTerm
    split_ifs with hnew
    · intro hrole
      simp [becomeFollower] at hrole
    · exact fun hrole => ⟨hrole, rfl⟩

/-- **Step lemma.**  Every transition but a compaction keeps the log invariant. -/
theorem step (hvote : VoteInv c s h) (hinv : LogInv s h) {a : Action} (hok : NoCompaction s a)
    (hstep : step c s a = some s') : LogInv s' (track s a h) := by
  cases step_cases hstep with
  | @startElection n hn hrole hidle =>
      refine hinv.of_votes hvote (hinv.sameLog_of rfl (Nat.le_succ _) ?_) ⟨rfl, rfl, rfl⟩ rfl rfl ?_
      · intro hlead
        simp [RaftNode.startElection] at hlead
      · intro m hm
        simp only [ClusterState.setElection_net, ClusterState.update_net, List.mem_append,
          List.mem_map] at hm
        rcases hm with ⟨p, -, rfl⟩ | hm
        · exact .inr rfl
        · exact .inl hm
  | @handleRequestVote n req hmem =>
      refine hinv.of_votes hvote ?_ ?_ rfl rfl ?_
      · rcases handleRequestVote_cases (s.node n) req with ⟨-, hnode⟩ | ⟨hyes, -, hfree⟩
        · simp only [ClusterState.update_node, hnode]
          exact hinv.sameLog_observeTerm n req.term
        · simp only [ClusterState.update_node, hyes]
          refine hinv.sameLog_of (by simp) ?_ ?_
          · dsimp only
            rcases hfree with hlt | ⟨heq, -⟩ <;> omega
          · unfold observeTerm
            split_ifs with hnew
            · intro hrole
              simp [becomeFollower] at hrole
            · exact fun hrole => ⟨hrole, rfl⟩
      · rw [track]
        split <;> exact ⟨rfl, rfl, rfl⟩
      · intro m hm
        rcases List.mem_cons.mp hm with rfl | hm
        · exact .inr rfl
        · exact .inl hm
  | @handleRequestVoteReply src req resp hmem hel =>
      refine hinv.of_votes hvote ?_ ⟨rfl, rfl, rfl⟩ rfl rfl (fun _ hm => .inl hm)
      simp only [ClusterState.update_node, RaftNode.handleRequestVoteReply]
      split_ifs
      · exact hinv.sameLog_observeTerm _ _
      · exact hinv.sameLog_of rfl le_rfl (fun hrole => ⟨hrole, rfl⟩)
  | @finishElection n granted req hel hnodup hcount =>
      simp only [track, hel]
      split_ifs with hwin
      · obtain ⟨-, -, hfresh⟩ := hvote.of_win hel hnodup hcount hwin
        have hlast := RaftLog.lastIndex_of_noSnapshot (hinv.noSnapshot n)
        refine hinv.of_elect hfresh hwin.2.1 (fun m hm => by simp [hm]) ?_ ?_ ?_ rfl rfl rfl
        all_goals simp [RaftNode.finishElection, hwin, hlast]
      · refine hinv.of_votes hvote ?_ ⟨rfl, rfl, rfl⟩ rfl rfl (fun _ hm => .inl hm)
        simp only [ClusterState.setElection_node, ClusterState.update_node,
          RaftNode.finishElection, if_neg hwin]
        exact hinv.sameLog_of rfl le_rfl (fun hrole => ⟨hrole, rfl⟩)
  | proposeRefused hrole =>
      rw [track, if_neg hrole]
      exact hinv
  | @propose n command node call hn hcall =>
      obtain ⟨hrole, rfl, -⟩ := propose_eq_some hcall
      rw [track, if_pos hrole]
      refine hinv.of_propose hvote hrole rfl (fun m hm => by simp [hm]) ?_ ?_ ?_ rfl rfl rfl
      all_goals simp
  | @replicate n hn =>
      refine hinv.of_sameLog hvote (fun m => ⟨rfl, le_rfl, fun hrole p => hinv.next m p hrole⟩)
        rfl rfl rfl ?_ hinv.noInstall hinv.noInstallReply hinv.append hinv.reply
      intro m task hm
      simp only [List.mem_append, List.mem_map, Prod.mk.injEq] at hm
      rcases hm with (⟨t, ht, rfl, rfl⟩ | hm) | hm
      · exact hinv.task_of_replicate hvote ht
      · exact hinv.tasks m task (.inl hm)
      · exact hinv.tasks m task (.inr hm)
  | sendStop => exact hinv
  | @sendSnapshot n task req hmem hreq =>
      have := snapshotLastIndex_pos_of_sendCheck hreq
      rw [(hinv.noSnapshot n).1] at this
      contradiction
  | @sendChecked n task hmem hgo =>
      refine hinv.of_sameLog hvote (fun m => ⟨rfl, le_rfl, fun hrole p => hinv.next m p hrole⟩)
        rfl rfl rfl ?_ hinv.noInstall hinv.noInstallReply hinv.append hinv.reply
      intro m task' hm
      rw [List.mem_cons, Prod.mk.injEq] at hm
      rcases hm with hm | ⟨rfl, rfl⟩ | hm
      · exact hinv.tasks m task' (.inl hm)
      · exact hinv.tasks m task' (.inl hmem)
      · exact hinv.tasks m task' (.inr hm)
  | sendRefused => exact hinv
  | @sendAppendEntries n task req hmem hreq =>
      refine hinv.of_sameLog hvote (fun m => ⟨rfl, le_rfl, fun hrole p => hinv.next m p hrole⟩)
        rfl rfl rfl hinv.tasks ?_ ?_ ?_ ?_
      · exact fun dst r hm => hinv.noInstall dst r (by simpa using hm)
      · exact fun src r resp hm => hinv.noInstallReply src r resp (by simpa using hm)
      · intro dst r hm
        rw [List.mem_cons, Message.appendEntries.injEq] at hm
        rcases hm with ⟨rfl, rfl⟩ | hm
        · exact hinv.appendOk_of_build hvote hmem hreq
        · exact hinv.append dst r hm
      · exact fun src r resp hm => hinv.reply src r resp (by simpa using hm)
  | @handleAppendEntries n req hmem =>
      cases hsucc : ((s.node n).handleAppendEntries req).2.success with
      | true =>
          rw [track, if_pos hsucc]
          obtain ⟨hle, hprev, hlog, hterm, hrole⟩ := accepted_frame hsucc
          exact hinv.of_accept hmem hle hprev (fun m hm => by simp [hm]) (by simpa using hlog)
            (by simpa using hterm) (by simpa using hrole) rfl rfl rfl
      | false =>
          rw [track, if_neg (by simp [hsucc])]
          refine hinv.of_sameLog hvote (hinv.sameLog_rejected hsucc) rfl rfl rfl hinv.tasks
            ?_ ?_ ?_ ?_
          · exact fun dst r hm => hinv.noInstall dst r (by simpa using hm)
          · exact fun src r resp hm => hinv.noInstallReply src r resp (by simpa using hm)
          · exact fun dst r hm => hinv.append dst r (by simpa using hm)
          · intro src r resp hm
            simp only [ClusterState.update_net, List.cons_append, List.nil_append, List.mem_cons,
              Message.appendEntriesReply.injEq] at hm
            rcases hm with ⟨-, rfl, -⟩ | hm
            · exact (hinv.append n r hmem).2
            · exact hinv.reply src r resp hm
  | @handleAppendEntriesReply src req resp hmem =>
      refine hinv.of_votes hvote (fun m => ?_) ⟨rfl, rfl, rfl⟩ rfl rfl (fun _ hm => .inl hm)
      by_cases hm : m = req.leaderId
      · subst hm
        rw [ClusterState.update_node, Function.update_self]
        refine ⟨handleAppendEntriesReply_log _ _ _ _, ?_, fun hrole p => ?_⟩
        · exact (Quiet.handleAppendEntriesReply _ _ _ _).voteKept.1
        · rw [handleAppendEntriesReply_log]
          exact hinv.next_of_reply hvote hmem hrole p
      · rw [ClusterState.update_node, Function.update_of_ne hm]
        exact ⟨rfl, le_rfl, fun hrole p => hinv.next m p hrole⟩
  | @handleInstallSnapshot n req hmem => exact absurd hmem (hinv.noInstall n req)
  | @handleInstallSnapshotReply src req resp hmem =>
      exact absurd hmem (hinv.noInstallReply src req resp)
  | compact => exact absurd hok not_false
  | @restart n =>
      refine hinv.of_votes hvote (hinv.sameLog_of rfl le_rfl ?_) ⟨rfl, rfl, rfl⟩ rfl rfl
        (fun _ hm => .inl hm)
      intro hrole
      simp [RaftNode.restart, openFiles] at hrole
  | @crashAfterStepDown n m term hmem hnew =>
      refine hinv.of_votes hvote (hinv.sameLog_of rfl hnew.le ?_) ⟨rfl, rfl, rfl⟩ rfl rfl
        (fun _ hm => .inl hm)
      intro hrole
      simp [RaftNode.restart, openFiles] at hrole

/-- **Run lemma.**  Both invariants hold at the end of every tracked run without
compaction. -/
theorem tracked {p p' : ClusterState × History} {as : List Action}
    (hrun : Exec (trackedStep c) (fun p a => NoCompaction p.1 a) p as p')
    (hvote : VoteInv c p.1 p.2) (hinv : LogInv p.1 p.2) : LogInv p'.1 p'.2 := by
  refine (hrun.invariant (fun q => VoteInv c q.1 q.2 ∧ LogInv q.1 q.2) ?_ ⟨hvote, hinv⟩).2
  rintro q a q' ⟨hv, hl⟩ hok hstep
  obtain ⟨hs, hh⟩ := instrument_eq_some.mp hstep
  rw [hh]
  exact ⟨hv.step hs, hl.step hv hok hs⟩

end LogInv

/-! ## Log matching -/

/-- Without a snapshot, a log has an entry at an index iff the list does. -/
theorem getElem?_of_hasEntryAt {log : RaftLog} (hlog : log.NoSnapshot) {i : Nat}
    (hi : log.hasEntryAt i = true) :
    0 < i ∧ ∃ e, log.entries[i - 1]? = some e ∧ log.termAt i = e.term ∧
      log.commandAt i = e.command := by
  simp only [RaftLog.hasEntryAt, Bool.and_eq_true, decide_eq_true_eq,
    RaftLog.lastIndex_of_noSnapshot hlog] at hi
  have hlt : i - 1 < log.entries.length := by omega
  refine ⟨hi.1, log.entries[i - 1], List.getElem?_eq_getElem hlt, ?_, ?_⟩
  · rw [RaftLog.termAt_of_noSnapshot hlog hi.1, List.getElem?_eq_getElem hlt]
    rfl
  · rw [RaftLog.commandAt_of_noSnapshot hlog hi.1, List.getElem?_eq_getElem hlt]
    rfl

/-- **Log matching.**  In every run without compaction, whatever is delivered and
whoever restarts: if two nodes, at one time or at different times, hold entries of
one term at one index, they hold the same entries at every index up to it; and
while a node stays in a term it leads, its log is only appended to. -/
theorem log_matching (c : Membership) {as as' : List Action} {s s' : ClusterState}
    (hrun : Runs c NoCompaction (ClusterState.init c) as s) (hrun' : Runs c NoCompaction s as' s') :
    (∀ n m i, (s.node n).log.hasEntryAt i = true → (s'.node m).log.hasEntryAt i = true →
      (s.node n).log.termAt i = (s'.node m).log.termAt i →
      ∀ j, 1 ≤ j → j ≤ i →
        (s.node n).log.hasEntryAt j = true ∧ (s'.node m).log.hasEntryAt j = true ∧
        (s.node n).log.termAt j = (s'.node m).log.termAt j ∧
        (s.node n).log.commandAt j = (s'.node m).log.commandAt j) ∧
    (∀ n, (s.node n).role = .leader →
      (s'.node n).state.currentTerm = (s.node n).state.currentTerm →
      (s.node n).log.entries <+: (s'.node n).log.entries) := by
  obtain ⟨h, htracked⟩ := hrun.instrument track {}
  obtain ⟨h', htracked'⟩ := hrun'.instrument track h
  obtain ⟨hvote, -⟩ := VoteInv.tracked htracked (VoteInv.init c)
  obtain ⟨hvote', hext⟩ := VoteInv.tracked htracked' hvote
  have hinv : LogInv s h := LogInv.tracked htracked (VoteInv.init c) (LogInv.init c)
  have hinv' : LogInv s' h' := LogInv.tracked htracked' hvote hinv
  constructor
  · intro n m i hn hm hterm j hj hji
    have hlog := hinv.noSnapshot n
    have hlog' := hinv'.noSnapshot m
    obtain ⟨hpos, e, he, hte, -⟩ := getElem?_of_hasEntryAt hlog hn
    obtain ⟨-, e', he', hte', -⟩ := getElem?_of_hasEntryAt hlog' hm
    have htake := ((hinv.follows n).mono hext.lead).take_eq_of_term_eq (hinv'.follows m) he he'
      (by rw [← hte, ← hte', hterm])
    have hget : (s.node n).log.entries[j - 1]? = (s'.node m).log.entries[j - 1]? := by
      have := congrArg (·[j - 1]?) htake
      simpa [List.getElem?_take_of_lt (show j - 1 < i - 1 + 1 by omega)] using this
    have hlen := (List.getElem?_eq_some_iff.mp he).1
    have hlen' := (List.getElem?_eq_some_iff.mp he').1
    refine ⟨?_, ?_, ?_, ?_⟩
    · simp only [RaftLog.hasEntryAt, RaftLog.lastIndex_of_noSnapshot hlog, Bool.and_eq_true,
        decide_eq_true_eq]
      omega
    · simp only [RaftLog.hasEntryAt, RaftLog.lastIndex_of_noSnapshot hlog', Bool.and_eq_true,
        decide_eq_true_eq]
      omega
    · rw [RaftLog.termAt_of_noSnapshot hlog hj, RaftLog.termAt_of_noSnapshot hlog' hj, hget]
    · rw [RaftLog.commandAt_of_noSnapshot hlog hj, RaftLog.commandAt_of_noSnapshot hlog' hj, hget]
  · intro n hrole hterm
    have hlead := hvote.leads n hrole
    have hlead' := hext.leader _ n hlead
    rw [hinv.leading n hlead, hinv'.leading n (hterm ▸ hlead'), hterm]
    exact hext.lead _

/-- A leader's first entry on its way to a follower, after which the leader
appends once more. -/
def replicateOne : List Action :=
  [.startElection 0, .handleRequestVote 1 ⟨1, 0, 0, 0⟩, .finishElection 0 [1], .propose 0 [97],
    .replicate 0, .sendCheck 0 ⟨1, 1, 1⟩, .sendAppendEntries 0 ⟨1, 1, 1⟩,
    .handleAppendEntries 1 ⟨1, 0, 0, 0, [⟨1, 1, [97]⟩], 0⟩]

theorem log_matching_replicateOne :
    ∃ s s', Runs threeNodes NoCompaction (ClusterState.init threeNodes) replicateOne s ∧
      Runs threeNodes NoCompaction s [.propose 0 [98]] s' ∧
      (s.node 0).log.commandAt 1 = (s'.node 1).log.commandAt 1 ∧
      (s.node 0).log.entries <+: (s'.node 0).log.entries := by
  have hrun := Exec.of_guardedRun (step threeNodes) NoCompaction (ClusterState.init threeNodes)
    replicateOne (by decide)
  have hrun' := Exec.of_guardedRun (step threeNodes) NoCompaction ((guardedRun (step threeNodes)
    NoCompaction (ClusterState.init threeNodes) replicateOne).get (by decide)) [.propose 0 [98]]
    (by decide)
  obtain ⟨hmatch, hgrow⟩ := log_matching threeNodes hrun hrun'
  refine ⟨_, _, hrun, hrun', ?_, ?_⟩
  · exact (hmatch 0 1 1 (by decide) (by decide) (by decide) 1 le_rfl le_rfl).2.2.2
  · exact hgrow 0 (by decide) (by decide)

end NanoDB.Raft
