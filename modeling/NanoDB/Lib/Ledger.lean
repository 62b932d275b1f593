import Mathlib.Data.Finset.Card
import Mathlib.Data.Set.Insert
import Mathlib.Data.List.Infix

/-!
# The history of a leader-based replicated log

A ledger records what happened in a protocol in which numbered terms have at most
one leader each, leaders are elected by votes and replicate a log.  It is a
history variable: nodes never read it.  Nodes are of an arbitrary type {lit}`ι`,
log entries of an arbitrary type {lit}`ε` with a term.

Main results:

- Theorem {lit}`Follows.take_eq_of_term_eq`: two logs that follow the ledger and
  have entries of one term at one position agree up to that position.
- Theorem {lit}`prefix_of_upToDate`: a log at least as up to date as one that
  holds a committed prefix holds it too, given that the leaders in between do.
- Theorem {lit}`Ledger.leader_completeness`: a prefix acknowledged by a quorum of
  its own term is in the first log of every later leader.
-/

namespace NanoDB.Lib

variable {ι ε : Type*}

/-! ## Logs that follow the leaders of their entries -/

section Logs

variable (term : ε → ℕ)

/-- Up to each of its entries a log equals the log of the leader of that entry's
term. -/
def Follows (lead : ℕ → List ε) (l : List ε) : Prop :=
  ∀ k e, l[k]? = some e → l.take (k + 1) = (lead (term e)).take (k + 1)

/-- Term of the last entry, 0 for the empty log. -/
def lastTerm (l : List ε) : ℕ :=
  (l.getLast?.map term).getD 0

/-- The election restriction: {lit}`l` is at least as up to date as {lit}`l'`. -/
def UpToDate (l l' : List ε) : Prop :=
  lastTerm term l' < lastTerm term l ∨
    (lastTerm term l = lastTerm term l' ∧ l'.length ≤ l.length)

variable {term} {lead lead' : ℕ → List ε} {l l' p : List ε}

theorem follows_nil : Follows term lead [] := by
  intro k e h
  simp at h

/-- A prefix of a log that follows the leaders follows them. -/
theorem Follows.of_isPrefix (h : Follows term lead l') (hp : l <+: l') : Follows term lead l := by
  intro k e hk
  have hlen : k + 1 ≤ l.length := by
    have := (List.getElem?_eq_some_iff.mp hk).1
    omega
  rcases hp with ⟨t, rfl⟩
  rw [← h k e (by rw [List.getElem?_append_left (by omega), hk]),
    List.take_append_of_le_length hlen]

/-- Leaders only append, so a log keeps following them. -/
theorem Follows.mono (h : Follows term lead l) (hlead : ∀ t, lead t <+: lead' t) :
    Follows term lead' l := by
  intro k e hk
  have hlen : k < l.length := (List.getElem?_eq_some_iff.mp hk).1
  have htake := h k e hk
  have hlead_len : k + 1 ≤ (lead (term e)).length := by
    have := congrArg List.length htake
    simp only [List.length_take] at this
    omega
  rcases hlead (term e) with ⟨t, ht⟩
  rw [htake, ← ht, List.take_append_of_le_length hlead_len]

/-- Log matching. -/
theorem Follows.take_eq_of_term_eq (h : Follows term lead l) (h' : Follows term lead l') {k : ℕ}
    {e e' : ε} (hk : l[k]? = some e) (hk' : l'[k]? = some e') (hterm : term e = term e') :
    l.take (k + 1) = l'.take (k + 1) := by
  rw [h k e hk, h' k e' hk', hterm]

/-- A nonempty log that follows the leaders is a prefix of the log of its last
term's leader. -/
theorem Follows.prefix_lead (h : Follows term lead l) (hne : l ≠ []) :
    l <+: lead (lastTerm term l) := by
  have hlast : l[l.length - 1]? = some (l.getLast hne) := by
    rw [← List.getLast?_eq_getElem?, List.getLast?_eq_some_getLast hne]
  have htake := h _ _ hlast
  have hpos : l.length - 1 + 1 = l.length := by
    have := List.length_pos_iff.mpr hne
    omega
  rw [hpos, List.take_length] at htake
  rw [List.prefix_iff_eq_take]
  simpa [lastTerm, List.getLast?_eq_some_getLast hne] using htake

/-- Terms never exceed the last one. -/
theorem Follows.term_le_lastTerm (h : Follows term lead l) (hle : ∀ t, ∀ e ∈ lead t, term e ≤ t)
    {e : ε} (he : e ∈ l) : term e ≤ lastTerm term l :=
  hle _ _ ((h.prefix_lead (List.ne_nil_of_mem he)).subset he)

/-- An entry of a log that follows the leaders belongs to a term that has one. -/
theorem Follows.lead_ne_nil (h : Follows term lead l) {e : ε} (he : e ∈ l) :
    lead (term e) ≠ [] := by
  rcases List.getElem?_of_mem he with ⟨k, hk⟩
  intro hnil
  have hlen := congrArg List.length (h k e hk)
  have := (List.getElem?_eq_some_iff.mp hk).1
  simp only [hnil, List.length_take, List.take_nil, List.length_nil] at hlen
  omega

theorem lastTerm_eq_getLast (term : ε → ℕ) (hne : l ≠ []) :
    lastTerm term l = term (l.getLast hne) := by
  simp [lastTerm, List.getLast?_eq_some_getLast hne]

/-- The election restriction carries a prefix from a voter's log to the
candidate's.  If the candidate's last term is newer, the leader of that term
already started with the prefix; if it is the voter's last term, both logs are
prefixes of one leader's log. -/
theorem prefix_of_upToDate (start : ℕ → List ε) {T : ℕ} (hl : Follows term lead l)
    (hl' : Follows term lead l') (hle : ∀ t, ∀ e ∈ lead t, term e ≤ t)
    (hup : UpToDate term l l') (hne : p ≠ []) (hlast : T ≤ lastTerm term p) (hp : p <+: l')
    (hstart : ∀ t, T < t → t ≤ lastTerm term l → lead t ≠ [] →
      p <+: start t ∧ start t <+: lead t ∧ ∀ e ∈ start t, term e < t) :
    p <+: l := by
  have hne' : l' ≠ [] := by
    rintro rfl
    exact hne (List.prefix_nil.mp hp)
  have hT' : T ≤ lastTerm term l' := by
    have hbound := hl'.term_le_lastTerm hle (hp.subset (List.getLast_mem hne))
    rw [← lastTerm_eq_getLast term hne] at hbound
    omega
  rcases hup with hlt | ⟨heq, hlen⟩
  · have hne_l : l ≠ [] := by
      rintro rfl
      simp [lastTerm] at hlt
    have hmem : l.getLast hne_l ∈ l := List.getLast_mem hne_l
    have hval := lastTerm_eq_getLast term hne_l
    rcases hstart _ (by omega) le_rfl (hval ▸ hl.lead_ne_nil hmem) with ⟨hps, hsl, hterms⟩
    rcases List.prefix_or_prefix_of_prefix hsl (hl.prefix_lead hne_l) with hsub | hsub
    · exact hps.trans hsub
    · -- the log would be no longer than the one its last term's leader started with
      have := hterms _ (hsub.subset hmem)
      omega
  · have hne_l : l ≠ [] := by
      rintro rfl
      exact hne' (List.length_eq_zero_iff.mp (Nat.le_zero.mp hlen))
    have hlead := hl'.prefix_lead hne'
    rw [← heq] at hlead
    exact hp.trans (List.prefix_of_prefix_length_le hlead (hl.prefix_lead hne_l) hlen)

end Logs

/-! ## Quorums -/

/-- More than half of the members. -/
def IsQuorum (members q : Finset ι) : Prop :=
  q ⊆ members ∧ members.card < 2 * q.card

/-- Two quorums share a member. -/
theorem IsQuorum.meet [DecidableEq ι] {members q q' : Finset ι} (h : IsQuorum members q)
    (h' : IsQuorum members q') : ∃ v, v ∈ q ∧ v ∈ q' := by
  have hcard : members.card < q.card + q'.card := by
    have := h.2
    have := h'.2
    omega
  rcases Finset.inter_nonempty_of_card_lt_card_add_card h.1 h'.1 hcard with ⟨v, hv⟩
  exact ⟨v, Finset.mem_inter.mp hv⟩

/-! ## Ledgers -/

/-- What happened so far.  {lit}`start t` and {lit}`lead t` are the first and the
latest log of the leader of term {lit}`t`, {lit}`electorate t` the voters counted
at its election.  A ballot is a vote cast before its term had a leader, with the
voter's log at that moment.  An acknowledgement {lit}`(t, v, c)` says that
{lit}`v` stored the first {lit}`c` entries of the leader of {lit}`t`. -/
structure Ledger (ι ε : Type*) where
  votes : Set (ℕ × ι × ι) := ∅
  ballots : Set (ℕ × ι × List ε) := ∅
  leader : ℕ → Option ι := fun _ => none
  electorate : ℕ → Finset ι := fun _ => ∅
  start : ℕ → List ε := fun _ => []
  lead : ℕ → List ε := fun _ => []
  acks : Set (ℕ × ι × ℕ) := ∅

namespace Ledger

/-- Record a vote; it is a ballot as well while the term has no leader. -/
def castVote (h : Ledger ι ε) (t : ℕ) (voter candidate : ι) (log : List ε) : Ledger ι ε :=
  { h with
    votes := insert (t, voter, candidate) h.votes
    ballots := if h.leader t = none then insert (t, voter, log) h.ballots else h.ballots }

/-- Record an election. -/
def elect (h : Ledger ι ε) (t : ℕ) (n : ι) (log : List ε) (voters : Finset ι) : Ledger ι ε :=
  { h with
    leader := Function.update h.leader t (some n)
    electorate := Function.update h.electorate t voters
    start := Function.update h.start t log
    lead := Function.update h.lead t log
    acks := insert (t, n, log.length) h.acks }

/-- Record that the leader of a term appended an entry. -/
def extend (h : Ledger ι ε) (t : ℕ) (n : ι) (e : ε) : Ledger ι ε :=
  { h with
    lead := Function.update h.lead t (h.lead t ++ [e])
    acks := insert (t, n, (h.lead t).length + 1) h.acks }

/-- Record an acknowledgement. -/
def acknowledge (h : Ledger ι ε) (t : ℕ) (v : ι) (c : ℕ) : Ledger ι ε :=
  { h with acks := insert (t, v, c) h.acks }

/-- The node stored at least the first {lit}`c` entries of the leader of {lit}`t`. -/
def Acked (h : Ledger ι ε) (t : ℕ) (v : ι) (c : ℕ) : Prop :=
  ∃ c', c ≤ c' ∧ (t, v, c') ∈ h.acks

/-- Later ledgers keep votes, elections and acknowledgements and extend the logs. -/
structure Extends (h h' : Ledger ι ε) : Prop where
  votes : h.votes ⊆ h'.votes
  leader : ∀ t n, h.leader t = some n → h'.leader t = some n
  start : ∀ t n, h.leader t = some n → h'.start t = h.start t
  lead : ∀ t, h.lead t <+: h'.lead t
  acks : h.acks ⊆ h'.acks

theorem Extends.refl (h : Ledger ι ε) : Extends h h where
  votes := subset_rfl
  leader _ _ hl := hl
  start _ _ _ := rfl
  lead _ := List.prefix_rfl
  acks := subset_rfl

theorem Extends.trans {h h' h'' : Ledger ι ε} (h₁ : Extends h h') (h₂ : Extends h' h'') :
    Extends h h'' where
  votes := h₁.votes.trans h₂.votes
  leader t n hl := h₂.leader t n (h₁.leader t n hl)
  start t n hl := (h₂.start t n (h₁.leader t n hl)).trans (h₁.start t n hl)
  lead t := (h₁.lead t).trans (h₂.lead t)
  acks := h₁.acks.trans h₂.acks

theorem Extends.castVote (h : Ledger ι ε) (t : ℕ) (voter candidate : ι) (log : List ε) :
    Extends h (h.castVote t voter candidate log) :=
  { Extends.refl h with votes := Set.subset_insert _ _ }

/-- An election extends the ledger when the term had no leader before. -/
theorem Extends.elect {h : Ledger ι ε} {t : ℕ} (hnone : h.leader t = none) (hnil : h.lead t = [])
    (n : ι) (log : List ε) (voters : Finset ι) : Extends h (h.elect t n log voters) where
  votes := subset_rfl
  leader t' m hm := by
    have hne : t' ≠ t := by
      rintro rfl
      simp [hnone] at hm
    simpa [Ledger.elect, hne] using hm
  start t' m hm := by
    have hne : t' ≠ t := by
      rintro rfl
      simp [hnone] at hm
    simp [Ledger.elect, hne]
  lead t' := by
    by_cases ht : t' = t
    · subst ht
      simp [hnil]
    · simp [Ledger.elect, ht]
  acks := Set.subset_insert _ _

theorem Extends.extend (h : Ledger ι ε) (t : ℕ) (n : ι) (e : ε) : Extends h (h.extend t n e) :=
  { Extends.refl h with
    lead := fun t' => by
      by_cases ht : t' = t
      · subst ht
        simp [Ledger.extend]
      · simp [Ledger.extend, ht]
    acks := Set.subset_insert _ _ }

theorem Extends.acknowledge (h : Ledger ι ε) (t : ℕ) (v : ι) (c : ℕ) :
    Extends h (h.acknowledge t v c) :=
  { Extends.refl h with acks := Set.subset_insert _ _ }

theorem Acked.mono {h h' : Ledger ι ε} {t c : ℕ} {v : ι} (hacks : h.acks ⊆ h'.acks)
    (ha : h.Acked t v c) : h'.Acked t v c := by
  rcases ha with ⟨c', hle, hmem⟩
  exact ⟨c', hle, hacks hmem⟩

variable (term : ε → ℕ)

/-- The logs of the leaders fit together. -/
structure Coherent (h : Ledger ι ε) : Prop where
  lead_nil : ∀ t, h.leader t = none → h.lead t = []
  lead_le : ∀ t, ∀ e ∈ h.lead t, term e ≤ t
  lead_follows : ∀ t, Follows term h.lead (h.lead t)
  start_isPrefix : ∀ t n, h.leader t = some n → h.start t <+: h.lead t
  start_lt : ∀ t n, h.leader t = some n → ∀ e ∈ h.start t, term e < t

section Coherence

variable {term} {h : Ledger ι ε} {t : ℕ}

/-- Ledgers with the same leaders and logs are alike. -/
theorem Coherent.congr {h' : Ledger ι ε} (hcoh : h.Coherent term) (hleader : h'.leader = h.leader)
    (hlead : h'.lead = h.lead) (hstart : h'.start = h.start) : h'.Coherent term where
  lead_nil := by simpa only [hleader, hlead] using hcoh.lead_nil
  lead_le := by simpa only [hlead] using hcoh.lead_le
  lead_follows := by simpa only [hlead] using hcoh.lead_follows
  start_isPrefix := by simpa only [hleader, hlead, hstart] using hcoh.start_isPrefix
  start_lt := by simpa only [hleader, hstart] using hcoh.start_lt

/-- A term without a leader has no entries in a log that follows the leaders. -/
theorem Coherent.term_ne (hcoh : h.Coherent term) (hnone : h.leader t = none) {l : List ε}
    (hl : Follows term h.lead l) {e : ε} (he : e ∈ l) : term e ≠ t := by
  rintro rfl
  exact hl.lead_ne_nil he (hcoh.lead_nil _ hnone)

/-- A term's first leader may start with any log that follows the older leaders. -/
theorem Coherent.elect (hcoh : h.Coherent term) (hnone : h.leader t = none) {n : ι} {log : List ε}
    {voters : Finset ι} (hlog : Follows term h.lead log) (hle : ∀ e ∈ log, term e ≤ t) :
    (h.elect t n log voters).Coherent term := by
  have hext := Extends.elect hnone (hcoh.lead_nil t hnone) n log voters
  have hself : (h.elect t n log voters).lead t = log := by simp [Ledger.elect]
  have hother : ∀ t', t' ≠ t → (h.elect t n log voters).lead t' = h.lead t' := by
    intro t' ht
    simp [Ledger.elect, ht]
  constructor
  case lead_nil =>
    intro t' ht'
    by_cases ht : t' = t
    · simp [Ledger.elect, ht] at ht'
    · rw [hother t' ht]
      exact hcoh.lead_nil t' (by simpa [Ledger.elect, ht] using ht')
  case lead_le =>
    intro t' e he
    by_cases ht : t' = t
    · subst ht
      exact hle e (hself ▸ he)
    · exact hcoh.lead_le t' e (hother t' ht ▸ he)
  case lead_follows =>
    intro t'
    by_cases ht : t' = t
    · subst ht
      rw [hself]
      exact hlog.mono hext.lead
    · rw [hother t' ht]
      exact (hcoh.lead_follows t').mono hext.lead
  case start_isPrefix =>
    intro t' m hm
    by_cases ht : t' = t
    · simp [Ledger.elect, ht]
    · simp only [Ledger.elect, Function.update_of_ne ht] at hm ⊢
      exact hcoh.start_isPrefix t' m hm
  case start_lt =>
    intro t' m hm e he
    by_cases ht : t' = t
    · subst ht
      simp only [Ledger.elect, Function.update_self] at he
      exact lt_of_le_of_ne (hle e he) (hcoh.term_ne hnone hlog he)
    · simp only [Ledger.elect, Function.update_of_ne ht] at hm he
      exact hcoh.start_lt t' m hm e he

/-- The log of a leader may grow by entries of its own term. -/
theorem Coherent.extend (hcoh : h.Coherent term) {n : ι} (hn : h.leader t = some n) {e : ε}
    (he : term e = t) : (h.extend t n e).Coherent term := by
  have hext := Extends.extend h t n e
  have hself : (h.extend t n e).lead t = h.lead t ++ [e] := by simp [Ledger.extend]
  have hother : ∀ t', t' ≠ t → (h.extend t n e).lead t' = h.lead t' := by
    intro t' ht
    simp [Ledger.extend, ht]
  constructor
  case lead_nil =>
    intro t' ht'
    have hne : t' ≠ t := by
      rintro rfl
      exact absurd (hn.symm.trans ht') (by simp)
    rw [hother t' hne]
    exact hcoh.lead_nil t' ht'
  case lead_le =>
    intro t' e' he'
    by_cases ht : t' = t
    · subst ht
      rw [hself, List.mem_append, List.mem_singleton] at he'
      rcases he' with he' | rfl
      · exact hcoh.lead_le t' e' he'
      · exact he.le
    · exact hcoh.lead_le t' e' (hother t' ht ▸ he')
  case lead_follows =>
    intro t'
    by_cases ht : t' = t
    · subst ht
      intro k e' hk
      rw [hself] at hk ⊢
      rcases Nat.lt_or_ge k (h.lead t').length with hlt | hge
      · rw [List.getElem?_append_left hlt] at hk
        rw [List.take_append_of_le_length hlt]
        exact ((hcoh.lead_follows t').mono hext.lead) k e' hk
      · -- the new entry belongs to this very term
        have hlen := (List.getElem?_eq_some_iff.mp hk).1
        simp only [List.length_append, List.length_singleton] at hlen
        have hk' : k = (h.lead t').length := by omega
        subst hk'
        rw [List.getElem?_append_right le_rfl, Nat.sub_self] at hk
        simp only [List.getElem?_cons_zero, Option.some.injEq] at hk
        subst hk
        rw [he, hself]
    · rw [hother t' ht]
      exact (hcoh.lead_follows t').mono hext.lead
  case start_isPrefix =>
    intro t' m hm
    exact (hcoh.start_isPrefix t' m hm).trans (hext.lead t')
  case start_lt => exact hcoh.start_lt

end Coherence

/-- A quorum of the members acknowledged, in term {lit}`t`, a prefix that ends with
an entry of that term. -/
def Committed (members : Finset ι) (h : Ledger ι ε) (t c : ℕ) : Prop :=
  (∃ e, 0 < c ∧ (h.lead t)[c - 1]? = some e ∧ term e = t) ∧
    ∃ q, IsQuorum members q ∧ ∀ v ∈ q, h.Acked t v c

variable {term} {members : Finset ι} {h h' : Ledger ι ε} {t t' c : ℕ}

/-- The first {lit}`c` entries of a leader's log do not change any more. -/
theorem take_lead_eq (hlead : h.lead t <+: h'.lead t) (hc : c ≤ (h.lead t).length) :
    (h'.lead t).take c = (h.lead t).take c := by
  rcases hlead with ⟨r, hr⟩
  rw [← hr, List.take_append_of_le_length hc]

theorem Committed.length_le (hcom : Committed term members h t c) : c ≤ (h.lead t).length := by
  rcases hcom.1 with ⟨e, hpos, hget, _⟩
  have := (List.getElem?_eq_some_iff.mp hget).1
  omega

theorem Committed.mono (hext : Extends h h') (hcom : Committed term members h t c) :
    Committed term members h' t c := by
  rcases hcom with ⟨⟨e, hpos, hget, hterm⟩, q, hq, hacked⟩
  refine ⟨⟨e, hpos, ?_, hterm⟩, q, hq, fun v hv => (hacked v hv).mono hext.acks⟩
  rcases hext.lead t with ⟨r, hr⟩
  rw [← hr, List.getElem?_append_left (List.getElem?_eq_some_iff.mp hget).1, hget]

/-- **Leader completeness.**  By strong induction on the later term: the two
quorums share a voter, whose ballot held the prefix unless a leader in between did
not, which the induction excludes; the election restriction then carries the
prefix to the candidate. -/
theorem leader_completeness [DecidableEq ι] (hcoh : h.Coherent term)
    (helect : ∀ t n, h.leader t = some n → IsQuorum members (h.electorate t) ∧
      ∀ v ∈ h.electorate t, ∃ l, (t, v, l) ∈ h.ballots ∧ UpToDate term (h.start t) l)
    (hballot : ∀ t v l, (t, v, l) ∈ h.ballots → Follows term h.lead l)
    (hkept : ∀ t v l t₀ c, (t, v, l) ∈ h.ballots → h.Acked t₀ v c → t₀ < t →
      (h.lead t₀).take c <+: l ∨
        ∃ t₁ n, t₀ < t₁ ∧ t₁ < t ∧ h.leader t₁ = some n ∧ ¬ (h.lead t₀).take c <+: h.start t₁)
    (hcom : Committed term members h t c) {n : ι} (hlt : t < t') (hn : h.leader t' = some n) :
    (h.lead t).take c <+: h.start t' := by
  induction t' using Nat.strong_induction_on generalizing n with
  | _ t' ih =>
    rcases hcom with ⟨⟨e, hpos, hget, hterm⟩, q, hq, hacked⟩
    have hlen : c ≤ (h.lead t).length := Committed.length_le ⟨⟨e, hpos, hget, hterm⟩, q, hq, hacked⟩
    rcases helect t' n hn with ⟨hquorum, hvotes⟩
    rcases hq.meet hquorum with ⟨v, hvq, hve⟩
    rcases hvotes v hve with ⟨l, hl, hup⟩
    have hpl : (h.lead t).take c <+: l := by
      rcases hkept t' v l t c hl (hacked v hvq) hlt with hp | ⟨t₁, m, hlo, hhi, hm, hno⟩
      · exact hp
      · exact absurd (ih t₁ hhi hlo hm) hno
    have hne : (h.lead t).take c ≠ [] := by
      rw [Ne, List.take_eq_nil_iff]
      rintro (h0 | h0)
      · omega
      · simp [h0] at hget
    have hlast : lastTerm term ((h.lead t).take c) = t := by
      rw [lastTerm, List.getLast?_eq_getElem?, List.length_take, min_eq_left hlen,
        List.getElem?_take_of_lt (by omega), hget]
      simpa using hterm
    refine prefix_of_upToDate h.start
      ((hcoh.lead_follows t').of_isPrefix (hcoh.start_isPrefix t' n hn))
      (hballot t' v l hl) hcoh.lead_le hup hne hlast.ge hpl ?_
    intro t₁ hlo hhi hne₁
    cases hm : h.leader t₁ with
    | none => exact absurd (hcoh.lead_nil t₁ hm) hne₁
    | some m =>
        refine ⟨ih t₁ ?_ hlo hm, hcoh.start_isPrefix t₁ m hm, hcoh.start_lt t₁ m hm⟩
        -- the entries a leader starts with are older than its term
        have hne_s : h.start t' ≠ [] := by
          intro h0
          simp [h0, lastTerm] at hhi
          omega
        have := hcoh.start_lt t' n hn _ (List.getLast_mem hne_s)
        rw [lastTerm_eq_getLast term hne_s] at hhi
        omega

end Ledger

end NanoDB.Lib
