/-
# `Lib.PubSub` — nodes around a broker that delivers once and in order

A protocol gives every node its subscriptions, a handler for one incoming
message and the actions it can take on its own.  A configuration holds the
nodes' local states and, for every publisher `p` and subscriber `n`, the link
`p → n`: what `p` has published for `n` and `n` has not handled yet, oldest
first.  The broker therefore delivers every message once to each subscriber, in
order per publisher; deliveries from different publishers interleave freely.
A handler runs to completion before the next event.  A handler or an action
that answers `none` does not complete, and the event is not enabled.

Two ghost logs per node record what it published and what it handled.

**Rules proved here.**

    Reachable.induct     an invariant of every step holds of every reachable configuration
    InOrder              handled from p ++ in flight from p = published by p for n
    Contract             assume–guarantee: local invariants and the shape of every link
    Contract.node_induct what a node's own events keep, between its state and its logs
    Contract.replies_eq_requests   the logs balance when every request is replied to once
    Contract.Mirror      a mirror that replays its inbox catches up with the owner
-/
import Mathlib.Logic.Function.Basic
import Mathlib.Data.List.Basic

namespace PubSub

/-- Nodes `N` exchanging messages `M`, with local states `σ`; `C` are the choices a
handler run leaves open, `E` the actions nodes take unprompted. -/
structure Protocol (N M σ C E : Type) where
  subscribed : N → M → Bool
  handle : N → C → σ → M → Option (σ × List M)
  act : N → E → σ → Option (σ × List M)

structure Config (N M σ : Type) where
  node : N → σ
  link : N → N → List M
  published : N → List M
  handled : N → List (N × M)

/-- The start: nothing in flight, nothing logged. -/
def Config.start {N M σ : Type} (node : N → σ) : Config N M σ :=
  ⟨node, fun _ _ => [], fun _ => [], fun _ => []⟩

inductive Event (N C E : Type) where
  | deliver (p n : N) (c : C)
  | act (n : N) (e : E)

variable {N M σ C E : Type} [DecidableEq N]

/-- `n` moves to `s` and publishes `ms`; the broker queues them for the subscribers. -/
def Config.commit (P : Protocol N M σ C E) (c : Config N M σ) (n : N) (s : σ) (ms : List M) :
    Config N M σ where
  node := Function.update c.node n s
  link a b := if a = n then c.link a b ++ ms.filter (P.subscribed b) else c.link a b
  published := Function.update c.published n (c.published n ++ ms)
  handled := c.handled

/-- `n` takes `m` off its link from `p`, on which `rest` remains. -/
def Config.take (c : Config N M σ) (p n : N) (m : M) (rest : List M) : Config N M σ where
  node := c.node
  link a b := if a = p ∧ b = n then rest else c.link a b
  published := c.published
  handled := Function.update c.handled n (c.handled n ++ [(p, m)])

def step (P : Protocol N M σ C E) (c : Config N M σ) : Event N C E → Option (Config N M σ)
  | .deliver p n ch =>
      match c.link p n with
      | [] => none
      | m :: rest =>
          match P.handle n ch (c.node n) m with
          | none => none
          | some (s, ms) => some ((c.take p n m rest).commit P n s ms)
  | .act n e =>
      match P.act n e (c.node n) with
      | none => none
      | some (s, ms) => some (c.commit P n s ms)

/-- A run is a list of events, all enabled in turn. -/
def run (P : Protocol N M σ C E) (c : Config N M σ) : List (Event N C E) → Option (Config N M σ)
  | [] => some c
  | e :: es => (step P c e).bind fun c' => run P c' es

theorem step_deliver {P : Protocol N M σ C E} {c : Config N M σ} {p n : N} {ch : C} {m : M}
    {rest ms : List M} {s : σ} (hl : c.link p n = m :: rest)
    (hh : P.handle n ch (c.node n) m = some (s, ms)) :
    step P c (.deliver p n ch) = some ((c.take p n m rest).commit P n s ms) := by
  simp only [step, hl, hh]

theorem step_cases {P : Protocol N M σ C E} {c c' : Config N M σ} {e : Event N C E}
    (h : step P c e = some c') :
    (∃ p n ch m rest s ms, e = .deliver p n ch ∧ c.link p n = m :: rest ∧
        P.handle n ch (c.node n) m = some (s, ms) ∧ c' = (c.take p n m rest).commit P n s ms) ∨
    (∃ n a s ms, e = .act n a ∧ P.act n a (c.node n) = some (s, ms) ∧ c' = c.commit P n s ms) := by
  cases e with
  | deliver p n ch =>
      simp only [step] at h
      split at h
      · cases h
      · rename_i m rest hl
        split at h
        · cases h
        · rename_i s ms hh
          exact .inl ⟨p, n, ch, m, rest, s, ms, rfl, hl, hh, (Option.some.inj h).symm⟩
  | act n a =>
      simp only [step] at h
      split at h
      · cases h
      · rename_i s ms hh
        exact .inr ⟨n, a, s, ms, rfl, hh, (Option.some.inj h).symm⟩

theorem run_append {P : Protocol N M σ C E} {c : Config N M σ} (es fs : List (Event N C E)) :
    run P c (es ++ fs) = (run P c es).bind fun c' => run P c' fs := by
  induction es generalizing c with
  | nil => rfl
  | cons e es ih =>
      simp only [List.cons_append, run]
      cases step P c e with
      | none => rfl
      | some c' => exact ih

/-- What holds of the start and is kept by every enabled event holds all along a run. -/
theorem run_induct {P : Protocol N M σ C E} {I : Config N M σ → Prop}
    {ok : Event N C E → Prop}
    (hstep : ∀ c e c', ok e → I c → step P c e = some c' → I c') :
    ∀ {es : List (Event N C E)} {c c' : Config N M σ},
      (∀ e ∈ es, ok e) → I c → run P c es = some c' → I c'
  | [], c, c', _, hc, hr => Option.some.inj hr ▸ hc
  | e :: es, c, c', hok, hc, hr => by
      obtain ⟨he, hes⟩ := List.forall_mem_cons.mp hok
      obtain ⟨d, hd, hr⟩ := Option.bind_eq_some_iff.mp hr
      exact run_induct hstep hes (hstep c e d he hc hd) hr

/-- Reachable by events that all satisfy `ok`. -/
def Reachable (P : Protocol N M σ C E) (ok : Event N C E → Prop) (c c' : Config N M σ) : Prop :=
  ∃ es : List (Event N C E), (∀ e ∈ es, ok e) ∧ run P c es = some c'

theorem Reachable.refl (P : Protocol N M σ C E) (ok : Event N C E → Prop) (c : Config N M σ) :
    Reachable P ok c c := ⟨[], fun _ he => absurd he List.not_mem_nil, rfl⟩

theorem Reachable.trans {P : Protocol N M σ C E} {ok : Event N C E → Prop}
    {c d c' : Config N M σ} (h : Reachable P ok c d) (h' : Reachable P ok d c') :
    Reachable P ok c c' := by
  obtain ⟨es, hok, hr⟩ := h
  obtain ⟨fs, hok', hr'⟩ := h'
  refine ⟨es ++ fs, fun e he => (List.mem_append.mp he).elim (hok e) (hok' e), ?_⟩
  rw [run_append, hr]
  exact hr'

theorem Reachable.one {P : Protocol N M σ C E} {ok : Event N C E → Prop} {c c' : Config N M σ}
    {e : Event N C E} (he : ok e) (hs : step P c e = some c') : Reachable P ok c c' :=
  ⟨[e], fun _ h => List.mem_singleton.mp h ▸ he, by simp [run, hs]⟩

theorem Reachable.induct {P : Protocol N M σ C E} {ok : Event N C E → Prop}
    {c c' : Config N M σ} (h : Reachable P ok c c') (I : Config N M σ → Prop) (hc : I c)
    (hstep : ∀ c e c', ok e → I c → step P c e = some c' → I c') : I c' := by
  obtain ⟨es, hok, hr⟩ := h
  exact run_induct hstep hok hc hr

theorem Reachable.mono {P : Protocol N M σ C E} {ok ok' : Event N C E → Prop}
    {c c' : Config N M σ} (h : Reachable P ok c c') (hsub : ∀ e, ok e → ok' e) :
    Reachable P ok' c c' := by
  obtain ⟨es, hok, hr⟩ := h
  exact ⟨es, fun e he => hsub e (hok e he), hr⟩

/-! ## What commit and take leave alone -/

@[simp] theorem commit_node_self (P : Protocol N M σ C E) (c : Config N M σ) (n : N) (s : σ)
    (ms : List M) : (c.commit P n s ms).node n = s := by
  simp [Config.commit]

theorem commit_node_of_ne (P : Protocol N M σ C E) (c : Config N M σ) {n b : N} (s : σ)
    (ms : List M) (h : b ≠ n) : (c.commit P n s ms).node b = c.node b := by
  simp [Config.commit, h]

@[simp] theorem take_published (c : Config N M σ) (p n : N) (m : M) (rest : List M) :
    (c.take p n m rest).published = c.published := rfl

@[simp] theorem take_node (c : Config N M σ) (p n : N) (m : M) (rest : List M) :
    (c.take p n m rest).node = c.node := rfl

theorem commit_link_forall {P : Protocol N M σ C E} {c : Config N M σ} {n : N} {s : σ}
    {ms : List M} {Q : N → N → M → Prop} (hc : ∀ a b, ∀ m ∈ c.link a b, Q a b m)
    (hms : ∀ m ∈ ms, ∀ b, P.subscribed b m = true → Q n b m) :
    ∀ a b, ∀ m ∈ (c.commit P n s ms).link a b, Q a b m := by
  intro a b m hm
  simp only [Config.commit] at hm
  split at hm
  · rename_i ha
    subst ha
    rcases List.mem_append.mp hm with hm | hm
    · exact hc a b m hm
    · obtain ⟨hm, hb⟩ := List.mem_filter.mp hm
      exact hms m hm b hb
  · exact hc a b m hm

theorem take_link_forall {c : Config N M σ} {p n : N} {m : M} {rest : List M}
    {Q : N → N → M → Prop} (hc : ∀ a b, ∀ x ∈ c.link a b, Q a b x)
    (hl : c.link p n = m :: rest) : ∀ a b, ∀ x ∈ (c.take p n m rest).link a b, Q a b x := by
  intro a b x hx
  simp only [Config.take] at hx
  split at hx
  · rename_i h
    obtain ⟨rfl, rfl⟩ := h
    exact hc a b x (hl ▸ List.mem_cons_of_mem _ hx)
  · exact hc a b x hx

/-! ## The broker delivers once and in order -/

/-- What `n` handled from `p`, in order. -/
def Config.handledFrom (c : Config N M σ) (p n : N) : List M :=
  ((c.handled n).filter fun x => x.1 = p).map Prod.snd

/-- Per link: handled so far, then in flight, is exactly what was published for it. -/
def InOrder (P : Protocol N M σ C E) (c : Config N M σ) : Prop :=
  ∀ p n, c.handledFrom p n ++ c.link p n = (c.published p).filter (P.subscribed n)

theorem inOrder_commit {P : Protocol N M σ C E} {c : Config N M σ} (h : InOrder P c) (n : N)
    (s : σ) (ms : List M) : InOrder P (c.commit P n s ms) := by
  intro p b
  have hpb := h p b
  simp only [Config.handledFrom, Config.commit] at hpb ⊢
  by_cases hp : p = n
  · subst hp
    rw [if_pos rfl, Function.update_self, List.filter_append, ← List.append_assoc, hpb]
  · rw [if_neg hp, Function.update_of_ne hp, hpb]

theorem inOrder_take {P : Protocol N M σ C E} {c : Config N M σ} (h : InOrder P c) {p n : N}
    {m : M} {rest : List M} (hl : c.link p n = m :: rest) :
    InOrder P (c.take p n m rest) := by
  intro q b
  have hqb := h q b
  simp only [Config.handledFrom, Config.take] at hqb ⊢
  by_cases hb : b = n
  · subst hb
    by_cases hq : q = p
    · subst hq
      rw [hl] at hqb
      simpa using hqb
    · simpa [hq, Ne.symm hq] using hqb
  · simpa [hb] using hqb

theorem inOrder_step {P : Protocol N M σ C E} {c c' : Config N M σ} {e : Event N C E}
    (h : InOrder P c) (hs : step P c e = some c') : InOrder P c' := by
  obtain ⟨p, n, ch, m, rest, s, ms, -, hl, -, rfl⟩ | ⟨n, a, s, ms, -, -, rfl⟩ := step_cases hs
  · exact inOrder_commit (inOrder_take h hl) n s ms
  · exact inOrder_commit h n s ms

theorem inOrder_start (P : Protocol N M σ C E) (node : N → σ) :
    InOrder P (Config.start node : Config N M σ) := fun _ _ => rfl

theorem Reachable.inOrder {P : Protocol N M σ C E} {ok : Event N C E → Prop} {node : N → σ}
    {c : Config N M σ} (h : Reachable P ok (Config.start node) c) : InOrder P c :=
  h.induct (InOrder P) (inOrder_start P node) fun _ _ _ _ hc hs => inOrder_step hc hs

theorem Reachable.published_grows {P : Protocol N M σ C E} {ok : Event N C E → Prop}
    {c c' : Config N M σ} (h : Reachable P ok c c') (n : N) :
    c.published n <+: c'.published n := by
  refine h.induct (fun d => c.published n <+: d.published n) (List.prefix_refl _) ?_
  intro d e d' _ hd hs
  refine hd.trans ?_
  obtain ⟨p, q, ch, m, rest, s, ms, -, -, -, rfl⟩ | ⟨q, a, s, ms, -, -, rfl⟩ := step_cases hs
  all_goals
    by_cases hn : n = q
    · subst hn; simp [Config.commit]
    · simp [Config.commit, hn]

theorem InOrder.handledFrom_grows {P : Protocol N M σ C E} {c c' : Config N M σ}
    (h : InOrder P c') {p n : N} (hpre : c.published p <+: c'.published p)
    (hlen : ((c.published p).filter (P.subscribed n)).length ≤ (c'.handledFrom p n).length) :
    (c.published p).filter (P.subscribed n) <+: c'.handledFrom p n := by
  have hfilter := hpre.filter (P.subscribed n)
  rw [← h p n] at hfilter
  exact List.prefix_of_prefix_length_le hfilter (List.prefix_append _ _) hlen

theorem handledFrom_step {P : Protocol N M σ C E} {c c' : Config N M σ} {e : Event N C E}
    (hs : step P c e = some c') (p n : N) :
    c'.handledFrom p n = c.handledFrom p n ∨
      ∃ ch m rest s ms, e = .deliver p n ch ∧ c.link p n = m :: rest ∧
        P.handle n ch (c.node n) m = some (s, ms) ∧ c' = (c.take p n m rest).commit P n s ms ∧
          c'.handledFrom p n = c.handledFrom p n ++ [m] := by
  obtain ⟨q, b, ch, m, rest, s, ms, rfl, hl, hh, rfl⟩ | ⟨q, a, s, ms, -, -, rfl⟩ := step_cases hs
  · by_cases hb : n = b
    · subst hb
      by_cases hq : q = p
      · subst hq
        refine Or.inr ⟨ch, m, rest, s, ms, rfl, hl, hh, rfl, ?_⟩
        simp [Config.handledFrom, Config.commit, Config.take]
      · refine Or.inl ?_
        simp [Config.handledFrom, Config.commit, Config.take, hq]
    · refine Or.inl ?_
      simp [Config.handledFrom, Config.commit, Config.take, hb]
  · exact Or.inl rfl

/-! ## Assume–guarantee

Each node relies on the shape of what arrives on its links and guarantees the
shape of what it publishes; that is enough for all of it to hold everywhere. -/

/-- A local invariant per node and a message shape per link, kept by every allowed event. -/
structure Contract (P : Protocol N M σ C E) (ok : Event N C E → Prop) where
  loc : N → σ → Prop
  shape : N → N → M → Prop
  handle_keeps : ∀ {p n ch s m s' ms}, ok (.deliver p n ch) → loc n s → shape p n m →
    P.handle n ch s m = some (s', ms) →
      loc n s' ∧ ∀ m' ∈ ms, ∀ b, P.subscribed b m' = true → shape n b m'
  act_keeps : ∀ {n e s s' ms}, ok (.act n e) → loc n s → P.act n e s = some (s', ms) →
      loc n s' ∧ ∀ m' ∈ ms, ∀ b, P.subscribed b m' = true → shape n b m'

namespace Contract

variable {P : Protocol N M σ C E} {ok : Event N C E → Prop}

/-- The contract holds of a configuration: everywhere, in flight and in the logs. -/
structure Holds (K : Contract P ok) (c : Config N M σ) : Prop where
  node : ∀ n, K.loc n (c.node n)
  link : ∀ p n, ∀ m ∈ c.link p n, K.shape p n m
  handled : ∀ n, ∀ x ∈ c.handled n, K.shape x.1 n x.2

theorem Holds.commit {K : Contract P ok} {c : Config N M σ} (h : K.Holds c) {n : N} {s : σ}
    {ms : List M} (hs : K.loc n s)
    (hms : ∀ m ∈ ms, ∀ b, P.subscribed b m = true → K.shape n b m) :
    K.Holds (c.commit P n s ms) where
  node b := by
    by_cases hb : b = n
    · subst hb; rw [commit_node_self]; exact hs
    · rw [commit_node_of_ne P c s ms hb]; exact h.node b
  link := commit_link_forall h.link hms
  handled := h.handled

theorem Holds.take {K : Contract P ok} {c : Config N M σ} (h : K.Holds c) {p n : N} {m : M}
    {rest : List M} (hl : c.link p n = m :: rest) : K.Holds (c.take p n m rest) where
  node := h.node
  link := take_link_forall h.link hl
  handled b x hx := by
    by_cases hb : b = n
    · subst hb
      simp only [Config.take, Function.update_self] at hx
      rcases List.mem_append.mp hx with hx | hx
      · exact h.handled b x hx
      · rw [List.mem_singleton.mp hx]
        exact h.link p b m (hl ▸ List.mem_cons_self)
    · simp only [Config.take, Function.update_of_ne hb] at hx
      exact h.handled b x hx

theorem Holds.step {K : Contract P ok} {c c' : Config N M σ} {e : Event N C E} (hok : ok e)
    (h : K.Holds c) (hs : PubSub.step P c e = some c') : K.Holds c' := by
  obtain ⟨p, n, ch, m, rest, s, ms, rfl, hl, hh, rfl⟩ | ⟨n, a, s, ms, rfl, ha, rfl⟩ :=
    step_cases hs
  · obtain ⟨hs', hms⟩ :=
      K.handle_keeps hok (h.node n) (h.link p n m (hl ▸ List.mem_cons_self)) hh
    exact (h.take hl).commit hs' hms
  · obtain ⟨hs', hms⟩ := K.act_keeps hok (h.node n) ha
    exact h.commit hs' hms

omit [DecidableEq N] in
theorem holds_start (K : Contract P ok) {node : N → σ} (h : ∀ n, K.loc n (node n)) :
    K.Holds (Config.start node) where
  node := h
  link _ _ _ hm := absurd hm List.not_mem_nil
  handled _ _ hx := absurd hx List.not_mem_nil

theorem holds (K : Contract P ok) {node : N → σ} {c : Config N M σ}
    (hstart : ∀ n, K.loc n (node n)) (h : Reachable P ok (Config.start node) c) : K.Holds c :=
  h.induct K.Holds (K.holds_start hstart) fun _ _ _ hok hc hs => hc.step hok hs

/-- What the events of one node keep, between its state, what it has handled and what it has
published, holds in every reachable configuration.  They may rely on the contract. -/
theorem node_induct (K : Contract P ok) {n : N} (I : σ → List (N × M) → List M → Prop)
    {node : N → σ} {c : Config N M σ} (hstart : ∀ n, K.loc n (node n)) (hI : I (node n) [] [])
    (hhandle : ∀ p ch s m s' ms done sent, ok (.deliver p n ch) → K.loc n s → K.shape p n m →
      P.handle n ch s m = some (s', ms) → I s done sent → I s' (done ++ [(p, m)]) (sent ++ ms))
    (hact : ∀ e s s' ms done sent, ok (.act n e) → K.loc n s → P.act n e s = some (s', ms) →
      I s done sent → I s' done (sent ++ ms))
    (h : Reachable P ok (Config.start node) c) : I (c.node n) (c.handled n) (c.published n) := by
  refine (h.induct (fun c => K.Holds c ∧ I (c.node n) (c.handled n) (c.published n))
    ⟨K.holds_start hstart, hI⟩ ?_).2
  rintro c e c' hok ⟨hK, hc⟩ hs
  refine ⟨hK.step hok hs, ?_⟩
  obtain ⟨p, b, ch, m, rest, s, ms, rfl, hl, hh, rfl⟩ | ⟨b, a, s, ms, rfl, ha, rfl⟩ :=
    step_cases hs
  · by_cases hb : n = b
    · subst hb
      have hm := hK.link p n m (hl ▸ List.mem_cons_self)
      have hnew := hhandle p ch _ m s ms _ _ hok (hK.node n) hm hh hc
      simpa [Config.take, Config.commit] using hnew
    · simpa [Config.take, Config.commit, hb] using hc
  · by_cases hb : n = b
    · subst hb
      have hnew := hact a _ s ms _ _ hok (hK.node n) ha hc
      simpa [Config.commit] using hnew
    · simpa [Config.commit, hb] using hc

/-! ## One reply per request

Which messages count as replies and which handlings as requests is up to the
caller; if each handling publishes one reply when it serves a request and none
otherwise, the logs balance at every node. -/

section
variable (K : Contract P ok) (isReply : M → Bool) (isRequest : N → N × M → Bool)

theorem replies_eq_requests
    (hhandle : ∀ {p n ch s m s' ms}, ok (.deliver p n ch) → K.loc n s → K.shape p n m →
      P.handle n ch s m = some (s', ms) →
        ms.countP isReply = if isRequest n (p, m) then 1 else 0)
    (hact : ∀ {n e s s' ms}, ok (.act n e) → K.loc n s → P.act n e s = some (s', ms) →
      ms.countP isReply = 0)
    {node : N → σ} {c : Config N M σ} (hstart : ∀ n, K.loc n (node n))
    (h : Reachable P ok (Config.start node) c) (n : N) :
    (c.published n).countP isReply = (c.handled n).countP (isRequest n) := by
  refine K.node_induct (fun _ done sent => sent.countP isReply = done.countP (isRequest n))
    hstart rfl ?_ ?_ h
  · intro p ch s m s' ms done sent hok hs hm hh hcount
    rw [List.countP_append, List.countP_append, hcount, hhandle hok hs hm hh,
      List.countP_singleton]
  · intro e s s' ms done sent hok hs ha hcount
    rw [List.countP_append, hcount, hact hok hs ha, Nat.add_zero]

end

/-! ## Mirrors

An owner `o` keeps a view `own` of its state; whatever changes it publishes
updates that, folded over the old view, give the new one.  A mirror `k` applies
each update as it arrives and nothing else changes its image.  Then the image,
with the updates still in flight folded over it, *is* the owner's view. -/

structure Mirror (K : Contract P ok) (o k : N) (V : Type) where
  ne : o ≠ k
  own : σ → V
  img : σ → V
  apply : V → M → V
  own_handle : ∀ {p ch s m s' ms}, ok (.deliver p o ch) → K.loc o s → K.shape p o m →
    P.handle o ch s m = some (s', ms) →
      (ms.filter (P.subscribed k)).foldl apply (own s) = own s'
  own_act : ∀ {e s s' ms}, ok (.act o e) → K.loc o s → P.act o e s = some (s', ms) →
      (ms.filter (P.subscribed k)).foldl apply (own s) = own s'
  img_handle : ∀ {ch s m s' ms}, ok (.deliver o k ch) → K.loc k s → K.shape o k m →
    P.handle k ch s m = some (s', ms) → img s' = apply (img s) m
  img_other : ∀ {p ch s m s' ms}, p ≠ o → ok (.deliver p k ch) → K.loc k s → K.shape p k m →
    P.handle k ch s m = some (s', ms) → img s' = img s
  img_act : ∀ {e s s' ms}, ok (.act k e) → K.loc k s → P.act k e s = some (s', ms) →
      img s' = img s

/-- The updates in flight, replayed on the mirror, give the owner's view. -/
def Mirror.Agrees {K : Contract P ok} {o k : N} {V : Type} (R : Mirror K o k V)
    (c : Config N M σ) : Prop :=
  (c.link o k).foldl R.apply (R.img (c.node k)) = R.own (c.node o)

section
variable {K : Contract P ok} {o k : N} {V : Type} (R : Mirror K o k V)

theorem Mirror.agrees_commit_owner {c : Config N M σ} (h : R.Agrees c) {s : σ} {ms : List M}
    (hms : (ms.filter (P.subscribed k)).foldl R.apply (R.own (c.node o)) = R.own s) :
    R.Agrees (c.commit P o s ms) := by
  unfold Mirror.Agrees at h ⊢
  rw [commit_node_self, commit_node_of_ne P c s ms R.ne.symm]
  simp only [Config.commit, if_true]
  rw [List.foldl_append, h, hms]

theorem Mirror.agrees_commit_other {c : Config N M σ} (h : R.Agrees c) {n : N} {s : σ}
    {ms : List M} (hn : n ≠ o) (himg : R.img (Function.update c.node n s k) = R.img (c.node k)) :
    R.Agrees (c.commit P n s ms) := by
  unfold Mirror.Agrees at h ⊢
  rw [commit_node_of_ne P c s ms hn.symm]
  simp only [Config.commit, if_neg hn.symm, himg]
  exact h

theorem Mirror.agrees_step {c c' : Config N M σ} {e : Event N C E} (hok : ok e) (hK : K.Holds c)
    (h : R.Agrees c) (hs : PubSub.step P c e = some c') : R.Agrees c' := by
  obtain ⟨p, n, ch, m, rest, s, ms, rfl, hl, hh, rfl⟩ | ⟨n, a, s, ms, rfl, ha, rfl⟩ :=
    step_cases hs
  · have hm := hK.link p n m (hl ▸ List.mem_cons_self)
    by_cases hno : n = o
    · -- the owner handles a message: its link to the mirror is not the one consumed
      subst hno
      refine R.agrees_commit_owner ?_ (R.own_handle hok (hK.node n) hm hh)
      unfold Mirror.Agrees at h ⊢
      simpa [Config.take, R.ne.symm] using h
    · by_cases hnk : n = k
      · subst hnk
        by_cases hpo : p = o
        · subst hpo
          have himg := R.img_handle hok (hK.node n) hm hh
          unfold Mirror.Agrees at h ⊢
          rw [hl, List.foldl_cons, ← himg] at h
          rw [commit_node_self, commit_node_of_ne _ _ _ _ R.ne, take_node]
          simpa [Config.commit, Config.take, R.ne] using h
        · have himg := R.img_other hpo hok (hK.node n) hm hh
          refine R.agrees_commit_other ?_ hno (by simpa using himg)
          unfold Mirror.Agrees at h ⊢
          simpa [Config.take, Ne.symm hpo] using h
      · refine R.agrees_commit_other ?_ hno (by simp [Ne.symm hnk])
        unfold Mirror.Agrees at h ⊢
        simpa [Config.take, Ne.symm hnk] using h
  · by_cases hno : n = o
    · subst hno
      exact R.agrees_commit_owner h (R.own_act hok (hK.node n) ha)
    · refine R.agrees_commit_other h hno ?_
      by_cases hnk : n = k
      · subst hnk; simpa using R.img_act hok (hK.node n) ha
      · simp [Ne.symm hnk]

/-- Mirrors that agree at the start agree in every reachable configuration. -/
theorem Mirror.agrees {node : N → σ} {c : Config N M σ} (hstart : ∀ n, K.loc n (node n))
    (h₀ : R.img (node k) = R.own (node o)) (h : Reachable P ok (Config.start node) c) :
    R.Agrees c := by
  refine (h.induct (fun c => K.Holds c ∧ R.Agrees c) ⟨K.holds_start hstart, h₀⟩ ?_).2
  intro _ _ _ hok hc hs
  exact ⟨hc.1.step hok hs, R.agrees_step hok hc.1 hc.2 hs⟩

end

end Contract

end PubSub
