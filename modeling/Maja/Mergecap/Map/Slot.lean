/-
# One allocation slot over a run

`AllocSlot::sticky` and `AllocSlot::unique` in any order, for the entries of one
compiled map.  The `j`-th new id of a `unique` entry is given the host that the
walk of its sequence reaches after `j` strides, so no host comes twice before the
walk has gone around.
-/

import Maja.Lib.Paired
import Maja.Mergecap.Map.Flow
import Mathlib.Data.Finset.Card

namespace Maja
namespace Mergecap

open Lib Packet

/-! ### Sequences -/

/-- The loop computes the greatest common divisor. -/
theorem gcd_eq (a b : ℕ) : gcd a b = Nat.gcd a b := by
  induction b using Nat.strong_induction_on generalizing a with
  | h b ih =>
      rw [gcd]
      split_ifs with hb
      · rw [hb, Nat.gcd_zero_right]
      · rw [ih (a % b) (Nat.mod_lt _ (by omega)), Nat.gcd_comm b, ← Nat.gcd_rec, Nat.gcd_comm]

namespace Sequence

/-- A walk over a pool of `n` addresses that skips none. -/
structure Sound (n : ℕ) (seq : Sequence) : Prop where
  start_lt : seq.start < n
  coprime : seq.step.Coprime n
  short : seq.step = 1 ∨ seq.step < n ∧ n ≤ U64_MAX

/-- Any stride that is found is coprime with the length, and so is the default. -/
theorem findStep_cases (offset : ℕ) {n : ℕ} (hn : 0 < n) :
    findStep offset n = 1 ∨ findStep offset n < n ∧ (findStep offset n).Coprime n := by
  unfold findStep
  cases h : List.find? _ _ with
  | none => exact .inl rfl
  | some step =>
      obtain ⟨i, -, rfl⟩ := List.mem_map.1 (List.mem_of_find?_eq_some h)
      have hstep := List.find?_some h
      simp only [decide_eq_true_eq, gcd_eq] at hstep
      exact .inr ⟨Nat.mod_lt _ hn, hstep.2⟩

variable {ρ : Type} [StdRng ρ]

/-- **A new sequence is sound, whatever the generator returns.** -/
theorem new_sound (rng : ρ) {n : ℕ} (hn : 0 < n) : (new rng n).1.Sound n := by
  unfold new
  split_ifs with h h64
  · exact ⟨hn, Nat.coprime_one_left n, .inl rfl⟩
  · exact ⟨(StdRng.randomRange 0 n _ rng).1.2.2, Nat.coprime_one_left n, .inl rfl⟩
  · refine ⟨(StdRng.randomRange 0 n _ _).1.2.2, ?_, ?_⟩
    · obtain hstep | hstep := findStep_cases (StdRng.randomRange 1 n (by omega) rng).1.val hn
      · show (findStep _ n).Coprime n
        rw [hstep]
        exact Nat.coprime_one_left n
      · exact hstep.2
    · obtain hstep | hstep := findStep_cases (StdRng.randomRange 1 n (by omega) rng).1.val hn
      · exact .inl hstep
      · exact .inr ⟨hstep.1, Nat.not_lt.1 h64⟩

/-- A new sequence has drawn nothing. -/
theorem new_drawn (rng : ρ) (n : ℕ) : (new rng n).1.drawn = 0 := by
  unfold new
  split_ifs <;> rfl

variable {n : ℕ} {seq : Sequence}

/-- Drawing keeps a sequence sound. -/
theorem Sound.draw (h : seq.Sound n) (drawn : ℕ) : Sound n { seq with drawn } :=
  ⟨h.start_lt, h.coprime, h.short⟩

/-- **The arithmetic of the walk fits**: neither the product nor the sum reaches
`2 ^ 128`. -/
theorem Sound.fits (h : seq.Sound n) (hn : n ≤ 2 ^ 127) {drawn : ℕ} (hdrawn : drawn < n) :
    drawn * seq.step < 2 ^ 128 ∧ seq.start + drawn * seq.step < 2 ^ 128 := by
  have hstart := h.start_lt
  obtain hstep | ⟨hstep, h64⟩ := h.short
  · rw [hstep]
    omega
  · have hmul : drawn * seq.step ≤ (2 ^ 64 - 2) * (2 ^ 64 - 2) := by
      rw [U64_MAX] at h64
      exact Nat.mul_le_mul (by omega) (by omega)
    rw [U64_MAX] at h64
    omega

/-- In the first round the index is that of the walk, and nothing wraps. -/
theorem nextIndex_eq (h : seq.Sound n) (hn : n ≤ 2 ^ 127) (hdrawn : seq.drawn < n) :
    seq.nextIndex n =
      ((walk seq.start seq.step n seq.drawn, false), { seq with drawn := seq.drawn + 1 }) := by
  obtain ⟨hproduct, hsum⟩ := h.fits hn hdrawn
  have hnext : (seq.drawn + 1) % 2 ^ 128 = seq.drawn + 1 := Nat.mod_eq_of_lt (by omega)
  rw [nextIndex, Nat.mod_eq_of_lt hdrawn, Nat.mod_eq_of_lt hproduct, Nat.mod_eq_of_lt hsum, hnext,
    decide_eq_false (Nat.not_le.2 hdrawn)]
  rfl

end Sequence

/-! ### What a slot may be asked -/

/-- `target_for` asks a slot for an address of the entry that the id names, under
the policy of this entry, which is a stateful one. -/
def FlowCfg.Asks (cfg : FlowCfg) (id : AllocId) (policy : MapPolicy) (pool : Pool) : Prop :=
  policy.isStateful = true ∧
    ∃ source, cfg.entries[id.entry]? = some ⟨source, .pool pool policy⟩

/-- Every pool is that of one network, as `compile` makes it. -/
def FlowCfg.OneNetPools (cfg : FlowCfg) : Prop :=
  ∀ entry ∈ cfg.entries, ∀ pool policy, entry.action = .pool pool policy →
    ∃ net, pool = .fromNets [net]

/-- What `compile` makes of a map: every entry compiled, longest prefix first. -/
theorem FlowCfg.of_compile {flow : FlowMap} {cfg : FlowCfg} (h : compile flow = .ok cfg) :
    ∃ entries, List.Forall₂ (fun entry compiled => CompilesTo entry flow.policy compiled)
        flow.entries entries ∧
      cfg.entries = sortEntries entries ∧ cfg.key = flow.key ∧ cfg.exclude = flow.exclude ∧
      cfg.fragments = flow.fragments := by
  unfold compile at h
  cases hentries : flow.entries.mapM fun entry => CompiledEntry.compile entry flow.policy with
  | error e => simp [hentries] at h; cases h
  | ok entries =>
      rw [hentries] at h
      cases hprotocols : ProtocolSet.compile flow.protocols with
      | error e => rw [hprotocols] at h; cases h
      | ok protocols =>
          rw [hprotocols] at h
          obtain rfl := Except.ok.inj h
          exact ⟨entries, (forall₂_of_mapM hentries).imp fun _ _ => .of_compile, rfl, rfl, rfl, rfl⟩

/-- Every compiled entry comes from an entry of the map. -/
theorem FlowCfg.exists_of_mem {flow : FlowMap} {cfg : FlowCfg} (h : compile flow = .ok cfg)
    {compiled : CompiledEntry} (hmem : compiled ∈ cfg.entries) :
    ∃ entry ∈ flow.entries, CompilesTo entry flow.policy compiled := by
  obtain ⟨entries, hall, hsort, -⟩ := of_compile h
  rw [hsort] at hmem
  exact exists_of_forall₂ hall ((sortByKey_perm _ entries).mem_iff.1 hmem)

/-- The pools of a compiled map have one network each. -/
theorem FlowCfg.oneNetPools_of_compile {flow : FlowMap} {cfg : FlowCfg}
    (h : compile flow = .ok cfg) : cfg.OneNetPools := by
  rintro compiled hmem pool policy haction
  obtain ⟨entry, -, hto⟩ := exists_of_mem h hmem
  cases hto with
  | fixed => cases haction
  | mask => cases haction
  | pool =>
      cases haction
      exact ⟨_, rfl⟩

/-! ### One request -/

namespace AllocSlot

variable {ρ ε : Type} [StdRng ρ] {slot slot' : AllocSlot ρ} {id : AllocId} {policy : MapPolicy}
  {net : IpNet} {target : Option IpAddr}

/-- What one request does to a slot: it finds the id in the table, or it draws a
host of the entry's network and remembers it.  Under `unique` the host is the next
one of the entry's sequence. -/
inductive Gives (slot : AllocSlot ρ) (id : AllocId) (net : IpNet) :
    MapPolicy → IpAddr → AllocSlot ρ → Prop
  | known {policy : MapPolicy} {target : IpAddr} : slot.table.lookup id = some target →
      Gives slot id net policy target slot
  | sticky {index : ℕ} {rng : ρ} : slot.table.lookup id = none → index < hostCount net →
      Gives slot id net .sticky (hostAt net index)
        { slot with rng, table := slot.table.insert id (hostAt net index) }
  | unique {seq : Sequence} {warnedWrap : List Bool} :
      slot.table.lookup id = none → slot.sequences[id.entry]? = some seq →
      Gives slot id net .unique (hostAt net ((seq.nextIndex (hostCount net)).1.1 % hostCount net))
        { slot with
          sequences := slot.sequences.set id.entry (seq.nextIndex (hostCount net)).2
          warnedWrap
          table := slot.table.insert id
            (hostAt net ((seq.nextIndex (hostCount net)).1.1 % hostCount net)) }

/-- An id in the table is answered from it. -/
theorem allocate_of_lookup {known : IpAddr} (h : slot.table.lookup id = some known) (pool : Pool) :
    (slot.allocate policy id pool : Outcome ε _) = .ok (some known, slot) := by
  unfold allocate
  split
  · simp only [AllocSlot.sticky, h]
  · simp only [AllocSlot.unique, h]

/-- **What a stateful policy does with a request.** -/
theorem gives_of_allocate (hpolicy : policy.isStateful = true)
    (h : (slot.allocate policy id (.fromNets [net]) : Outcome ε _) = .ok (target, slot')) :
    ∃ given, target = some given ∧ slot.Gives id net policy given slot' := by
  cases hlookup : slot.table.lookup id with
  | some known =>
      rw [allocate_of_lookup hlookup] at h
      cases h
      exact ⟨known, rfl, .known hlookup⟩
  | none =>
      cases policy with
      | random => cases hpolicy
      | hash => cases hpolicy
      | sticky =>
          obtain ⟨index, rng, hchoose⟩ := Pool.choose_singleton net slot.rng
          simp only [allocate, AllocSlot.sticky, hlookup, hchoose] at h
          cases h
          exact ⟨_, rfl, .sticky hlookup (Nat.mod_lt _ (hostCount_pos net))⟩
      | unique =>
          simp only [allocate, AllocSlot.unique, hlookup, Outcome.bind_eq_ok] at h
          obtain ⟨seq, hseq, h⟩ := h
          simp only [Pool.len_singleton, Pool.addrAt_singleton, Outcome.pure_eq] at h
          cases h
          exact ⟨_, rfl, .unique hlookup (Outcome.index_eq_some hseq)⟩

/-! ### Runs -/

/-- Requests to a slot, one after the other, and what each was given. -/
inductive Run (cfg : FlowCfg) : AllocSlot ρ → List (AllocId × IpAddr) → AllocSlot ρ → Prop
  | nil {slot : AllocSlot ρ} : Run cfg slot [] slot
  | snoc {slot slot₁ slot₂ : AllocSlot ρ} {given : List (AllocId × IpAddr)} {id : AllocId}
      {policy : MapPolicy} {pool : Pool} {target : IpAddr} : Run cfg slot given slot₁ →
      cfg.Asks id policy pool →
      (slot₁.allocate policy id pool : Outcome Empty _) = .ok (some target, slot₂) →
      Run cfg slot (given ++ [(id, target)]) slot₂

/-- The addresses that the ids of an entry hold, the latest first. -/
def held (table : Table AllocId IpAddr) (entry : ℕ) : List IpAddr :=
  (table.entries.filter fun item => item.1.entry = entry).map Sigma.snd

/-- The first `n` hosts on the walk of a sequence, the latest first. -/
def walked (net : IpNet) (seq : Sequence) (n : ℕ) : List IpAddr :=
  ((List.range n).map fun j => hostAt net (walk seq.start seq.step (hostCount net) j)).reverse

/-- One more draw is one more step of the walk. -/
theorem walked_succ (net : IpNet) (seq : Sequence) (n : ℕ) :
    walked net seq (n + 1) =
      hostAt net (walk seq.start seq.step (hostCount net) n) :: walked net seq n := by
  simp [walked, List.range_succ]

/-- **One round of a walk hands out no host twice.** -/
theorem walked_nodup {net : IpNet} {seq : Sequence} (h : seq.Sound (hostCount net)) {n : ℕ}
    (hn : n ≤ hostCount net) : (walked net seq n).Nodup := by
  refine List.nodup_reverse.2 (List.Nodup.map_on (fun i hi j hj hij => ?_) List.nodup_range)
  have hi : i < hostCount net := (List.mem_range.1 hi).trans_le hn
  have hj : j < hostCount net := (List.mem_range.1 hj).trans_le hn
  have hpos := hostCount_pos net
  exact walk_injOn h.coprime hi hj (hostAt_injOn net (walk_lt hpos) (walk_lt hpos) hij)

/-- The entry hands out the hosts of `net` under `unique`, and the walk does not
wrap around in a `u128`. -/
def UniqueOver (cfg : FlowCfg) (entry : ℕ) (net : IpNet) : Prop :=
  (∃ source, cfg.entries[entry]? = some ⟨source, .pool (.fromNets [net]) .unique⟩) ∧
    hostCount net ≤ 2 ^ 127

/-- The sequence of a `unique` entry is where its ids are: until the pool is
exhausted, they hold the hosts it has walked over. -/
def OnTheWalk (cfg : FlowCfg) (slot : AllocSlot ρ) : Prop :=
  ∀ entry net, UniqueOver cfg entry net → ∃ seq, slot.sequences[entry]? = some seq ∧
    seq.Sound (hostCount net) ∧
    ((held slot.table entry).length ≤ hostCount net →
      seq.drawn = (held slot.table entry).length ∧
        held slot.table entry = walked net seq seq.drawn)

variable {cfg : FlowCfg} {entry : ℕ}

/-- The targets that an entry holds when an id is put in. -/
theorem held_insert {table : Table AllocId IpAddr} (h : table.lookup id = none) (given : IpAddr) :
    held (table.insert id given) entry =
      if id.entry = entry then given :: held table entry else held table entry := by
  unfold held
  rw [AList.entries_insert_of_notMem (AList.lookup_eq_none.1 h), List.filter_cons]
  split_ifs with hentry <;> simp_all

omit [StdRng ρ] in
/-- **A request keeps the sequences on the walk.** -/
theorem OnTheWalk.step (h : OnTheWalk cfg slot) {pool : Pool} (hasks : cfg.Asks id policy pool)
    (hpool : pool = .fromNets [net]) {given : IpAddr} (hgives : slot.Gives id net policy given slot') :
    OnTheWalk cfg slot' := by
  subst hpool
  intro entry net' hunique
  obtain ⟨seq, hseq, hsound, hwalk⟩ := h entry net' hunique
  obtain ⟨-, source, hentry⟩ := hasks
  cases hgives with
  | known => exact ⟨seq, hseq, hsound, hwalk⟩
  | sticky hlookup =>
      -- the entry of the id is not the `unique` one
      have hne : id.entry ≠ entry := by
        rintro rfl
        obtain ⟨⟨source', hentry'⟩, -⟩ := hunique
        simp [hentry] at hentry'
      refine ⟨seq, hseq, hsound, ?_⟩
      rw [held_insert hlookup, if_neg hne]
      exact hwalk
  | @unique seq' _ hlookup hseq' =>
      by_cases hne : id.entry = entry
      · subst hne
        -- the id is the next one of this very sequence
        obtain rfl : seq = seq' := Option.some.inj (hseq.symm.trans hseq')
        obtain rfl : net' = net := by
          obtain ⟨⟨source', hentry'⟩, -⟩ := hunique
          simp only [hentry, Option.some.injEq, CompiledEntry.mk.injEq, Action.pool.injEq] at hentry'
          exact (Pool.fromNets_singleton_inj hentry'.2.1).symm
        have hlt : id.entry < slot.sequences.length := (List.getElem?_eq_some_iff.1 hseq).1
        refine ⟨_, List.getElem?_set_self hlt, hsound.draw _, ?_⟩
        rw [held_insert hlookup, if_pos rfl, List.length_cons]
        intro hle
        obtain ⟨hdrawn, hheld⟩ := hwalk (by omega)
        have hnext := Sequence.nextIndex_eq hsound hunique.2 (by omega)
        rw [hnext]
        refine ⟨congrArg Nat.succ hdrawn, ?_⟩
        rw [Nat.mod_eq_of_lt (walk_lt (hostCount_pos _)), hheld]
        exact (walked_succ _ _ _).symm
      · refine ⟨seq, ?_, hsound, ?_⟩
        · rw [List.getElem?_set_ne hne]
          exact hseq
        · rw [held_insert hlookup, if_neg hne]
          exact hwalk

/-- A new slot has a sound sequence for every pool, at its start. -/
theorem newSequences_sound (rng : ρ) {poolLens : List ℕ} {entry n : ℕ}
    (h : poolLens[entry]? = some n) (hn : 0 < n) :
    ∃ seq, (newSequences rng poolLens).1[entry]? = some seq ∧ seq.Sound n ∧ seq.drawn = 0 := by
  induction poolLens generalizing rng entry with
  | nil => simp at h
  | cons poolLen poolLens ih =>
      cases entry with
      | zero =>
          obtain rfl : poolLen = n := by simpa using h
          exact ⟨_, rfl, Sequence.new_sound rng hn, Sequence.new_drawn rng _⟩
      | succ entry => exact ih _ (by simpa using h)

/-- The sequences of a new slot have not moved. -/
theorem onTheWalk_new (cfg : FlowCfg) (seed salt : UInt64) :
    OnTheWalk cfg (new seed salt (cfg.entries.map CompiledEntry.poolLen) : AllocSlot ρ) := by
  rintro entry net ⟨⟨source, hentry⟩, -⟩
  have hlen : (cfg.entries.map CompiledEntry.poolLen)[entry]? = some (hostCount net) := by
    rw [List.getElem?_map, hentry]
    exact congrArg some (Pool.len_singleton net)
  obtain ⟨seq, hseq, hsound, hdrawn⟩ := newSequences_sound (derivedRng seed salt : ρ) hlen
    (hostCount_pos net)
  refine ⟨seq, hseq, hsound, fun _ => ⟨hdrawn, ?_⟩⟩
  rw [hdrawn]
  rfl

/-- What a slot knows after a run: where its sequences are, and what was given to
whom, which is an address of the entry's network. -/
structure Books (cfg : FlowCfg) (given : List (AllocId × IpAddr)) (slot : AllocSlot ρ) : Prop where
  onTheWalk : OnTheWalk cfg slot
  recorded : ∀ id target, slot.table.lookup id = some target ↔ (id, target) ∈ given
  inside : ∀ id target, (id, target) ∈ given → ∀ source net policy,
    cfg.entries[id.entry]? = some ⟨source, .pool (.fromNets [net]) policy⟩ → net.contains target

omit [StdRng ρ] in
/-- What a request gives is remembered, and nothing else changes in the table. -/
theorem Gives.lookup {given : IpAddr} (h : slot.Gives id net policy given slot') (id' : AllocId) :
    slot'.table.lookup id' = if id' = id then some given else slot.table.lookup id' := by
  split_ifs with hid
  · subst hid
    cases h with
    | known hlookup => exact hlookup
    | sticky => exact AList.lookup_insert _
    | unique => exact AList.lookup_insert _
  · cases h with
    | known => rfl
    | sticky => exact AList.lookup_insert_ne hid
    | unique => exact AList.lookup_insert_ne hid

omit [StdRng ρ] in
/-- It gives an address that was given to the id before, or a host of the
network. -/
theorem Gives.known_or_inside {given : IpAddr} (h : slot.Gives id net policy given slot') :
    slot.table.lookup id = some given ∨ slot.table.lookup id = none ∧ net.contains given := by
  cases h with
  | known hlookup => exact .inl hlookup
  | sticky hlookup hindex => exact .inr ⟨hlookup, contains_hostAt hindex⟩
  | unique hlookup => exact .inr ⟨hlookup, contains_hostAt (Nat.mod_lt _ (hostCount_pos net))⟩

omit [StdRng ρ] in
/-- **A request keeps the books.** -/
theorem Books.step {given : List (AllocId × IpAddr)} (h : Books cfg given slot) {pool : Pool}
    (hasks : cfg.Asks id policy pool) (hpool : pool = .fromNets [net]) {addr : IpAddr}
    (hgives : slot.Gives id net policy addr slot') :
    Books cfg (given ++ [(id, addr)]) slot' where
  onTheWalk := h.onTheWalk.step hasks hpool hgives
  recorded := by
    intro id' target
    rw [hgives.lookup, List.mem_append, List.mem_singleton, Prod.mk.injEq]
    split_ifs with hid
    · subst hid
      rw [← h.recorded]
      obtain hknown | ⟨hnew, -⟩ := hgives.known_or_inside
      · rw [hknown]
        simp [eq_comm]
      · rw [hnew]
        simp [eq_comm]
    · simp [hid, h.recorded]
  inside := by
    intro id' target hmem source net' policy' hentry
    rw [List.mem_append, List.mem_singleton, Prod.mk.injEq] at hmem
    obtain hmem | ⟨rfl, rfl⟩ := hmem
    · exact h.inside _ _ hmem _ _ _ hentry
    · obtain hknown | ⟨-, hinside⟩ := hgives.known_or_inside
      · exact h.inside _ _ ((h.recorded _ _).1 hknown) _ _ _ hentry
      · obtain ⟨-, source', hentry'⟩ := hasks
        simp only [hpool, hentry, Option.some.injEq, CompiledEntry.mk.injEq,
          Action.pool.injEq] at hentry'
        rw [Pool.fromNets_singleton_inj hentry'.2.1]
        exact hinside

/-- **The books of a run.** -/
theorem Run.books (hpools : cfg.OneNetPools) {slot : AllocSlot ρ}
    {given : List (AllocId × IpAddr)} {slot' : AllocSlot ρ} (hrun : Run cfg slot given slot')
    (h : Books cfg [] slot) : Books cfg given slot' := by
  induction hrun with
  | nil => exact h
  | @snoc _ _ _ _ _ _ _ _ hasks hallocate ih =>
      obtain ⟨source, hentry⟩ := hasks.2
      obtain ⟨net, rfl⟩ := hpools _ (List.mem_of_getElem? hentry) _ _ rfl
      obtain ⟨addr, haddr, hgives⟩ := gives_of_allocate hasks.1 hallocate
      obtain rfl := Option.some.inj haddr
      exact ih.step hasks rfl hgives

omit [StdRng ρ] in
/-- The ids of an entry that hold an address are all among those that asked. -/
theorem Books.held_length_le {given : List (AllocId × IpAddr)} (h : Books cfg given slot) :
    (held slot.table entry).length ≤
      ((given.map Prod.fst).filter fun id => id.entry = entry).toFinset.card := by
  have hkeys : ((slot.table.entries.filter fun item => item.1.entry = entry).map Sigma.fst).Nodup :=
    (slot.table.nodupKeys.sublist List.filter_sublist)
  rw [held, List.length_map, ← List.length_map (f := Sigma.fst), ← List.toFinset_card_of_nodup hkeys]
  refine Finset.card_le_card fun id hid => ?_
  obtain ⟨⟨id', target⟩, hitem, rfl⟩ := List.mem_map.1 (List.mem_toFinset.1 hid)
  obtain ⟨hitem, hentry⟩ := List.mem_filter.1 hitem
  have hmem := (h.recorded _ _).1 (AList.mem_lookup_iff.2 hitem)
  exact List.mem_toFinset.2 (List.mem_filter.2 ⟨List.mem_map_of_mem hmem, hentry⟩)

/-- A new slot has a sequence for every pool. -/
theorem newSequences_length (rng : ρ) (poolLens : List ℕ) :
    (newSequences rng poolLens).1.length = poolLens.length := by
  induction poolLens generalizing rng with
  | nil => rfl
  | cons poolLen poolLens ih => exact congrArg Nat.succ (ih _)

omit [StdRng ρ] in
/-- Giving a target keeps the number of sequences. -/
theorem Gives.sequences_length {given : IpAddr} (h : slot.Gives id net policy given slot') :
    slot'.sequences.length = slot.sequences.length := by
  cases h with
  | known => rfl
  | sticky => rfl
  | unique => exact List.length_set

/-- A run of requests keeps the number of sequences. -/
theorem Run.sequences_length (hpools : cfg.OneNetPools) {slot slot' : AllocSlot ρ}
    {given : List (AllocId × IpAddr)} (hrun : Run cfg slot given slot') :
    slot'.sequences.length = slot.sequences.length := by
  induction hrun with
  | nil => rfl
  | @snoc _ _ _ _ _ _ _ _ hasks hallocate ih =>
      obtain ⟨source, hentry⟩ := hasks.2
      obtain ⟨net, rfl⟩ := hpools _ (List.mem_of_getElem? hentry) _ _ rfl
      obtain ⟨addr, -, hgives⟩ := gives_of_allocate hasks.1 hallocate
      exact hgives.sequences_length.trans ih

/-- A slot has an address for every request: it never panics, and a run goes on. -/
theorem Run.answers (hpools : cfg.OneNetPools) {seed salt : UInt64} {slot : AllocSlot ρ}
    {given : List (AllocId × IpAddr)}
    (hrun : Run cfg (new seed salt (cfg.entries.map CompiledEntry.poolLen)) given slot) {pool : Pool}
    (hasks : cfg.Asks id policy pool) :
    ∃ target slot', (slot.allocate policy id pool : Outcome ε _) = .ok (some target, slot') := by
  obtain ⟨hpolicy, source, hentry⟩ := hasks
  obtain ⟨net, rfl⟩ := hpools _ (List.mem_of_getElem? hentry) _ _ rfl
  have hlt : id.entry < slot.sequences.length := by
    rw [hrun.sequences_length hpools, new, newSequences_length, List.length_map]
    exact (List.getElem?_eq_some_iff.1 hentry).1
  cases hlookup : slot.table.lookup id with
  | some known => exact ⟨known, slot, allocate_of_lookup hlookup _⟩
  | none =>
      cases policy with
      | random => cases hpolicy
      | hash => cases hpolicy
      | sticky =>
          obtain ⟨index, rng, hchoose⟩ := Pool.choose_singleton net slot.rng
          simp only [allocate, AllocSlot.sticky, hlookup, hchoose]
          exact ⟨_, _, rfl⟩
      | unique =>
          simp only [allocate, AllocSlot.unique, hlookup, Outcome.index_eq_ok hlt, Outcome.ok_bind,
            Pool.addrAt_singleton, Outcome.pure_eq]
          exact ⟨_, _, rfl⟩

/-- **`unique` never hands out an address early.**  For every map that compiles,
every seed and generator, and every run of requests to one slot: an id keeps what
it was given; a `unique` entry gives addresses of its own network; and as long as
no more ids of the entry have asked than its pool has addresses, two ids hold two
addresses. -/
theorem unique_never_reuses {flow : FlowMap} {cfg : FlowCfg} (hcompile : FlowCfg.compile flow = .ok cfg)
    (seed salt : UInt64) {given : List (AllocId × IpAddr)} {slot : AllocSlot ρ}
    (hrun : Run cfg (new seed salt (cfg.entries.map CompiledEntry.poolLen)) given slot) :
    (∀ id target target', (id, target) ∈ given → (id, target') ∈ given → target = target') ∧
    ∀ entry net, UniqueOver cfg entry net →
      (∀ id target, (id, target) ∈ given → id.entry = entry → net.contains target) ∧
      (((given.map Prod.fst).filter fun id => id.entry = entry).toFinset.card ≤ hostCount net →
        ∀ id target id' target', (id, target) ∈ given → (id', target') ∈ given →
          id.entry = entry → id'.entry = entry → id ≠ id' → target ≠ target') := by
  have hbooks : Books cfg given slot := by
    refine hrun.books (FlowCfg.oneNetPools_of_compile hcompile) ⟨onTheWalk_new cfg seed salt, ?_, ?_⟩
    · intro id target
      simp [new]
    · intro id target h
      cases h
  refine ⟨fun id target target' h h' => ?_, fun entry net hunique => ⟨?_, ?_⟩⟩
  · rw [← hbooks.recorded] at h h'
    exact Option.some.inj (h.symm.trans h')
  · rintro id target h rfl
    obtain ⟨⟨source, hentry⟩, -⟩ := hunique
    exact hbooks.inside _ _ h _ _ _ hentry
  · rintro hcard id target id' target' h h' rfl hentry' hne rfl
    obtain ⟨seq, -, hsound, hwalk⟩ := hbooks.onTheWalk _ _ hunique
    have hle := hbooks.held_length_le.trans hcard
    obtain ⟨hdrawn, hheld⟩ := hwalk hle
    -- the addresses held are those of one round of the walk
    have hnodup : (held slot.table id.entry).Nodup := by
      rw [hheld, hdrawn]
      exact walked_nodup hsound hle
    have hmem : ∀ id', (id', target) ∈ given → id'.entry = id.entry →
        (⟨id', target⟩ : (_ : AllocId) × IpAddr) ∈
          slot.table.entries.filter fun item => item.1.entry = id.entry := fun id' h' hentry =>
      List.mem_filter.2 ⟨AList.mem_lookup_iff.1 ((hbooks.recorded _ _).2 h'), by simpa using hentry⟩
    have heq := List.inj_on_of_nodup_map hnodup (hmem id h rfl) (hmem id' h' hentry') rfl
    exact hne (congrArg Sigma.fst heq)

/-! ### A pool of two addresses -/

/-- `192.168.0.0/16=>10.0.0.0/30`, `unique`. -/
def twoHosts : FlowMap where
  key := .address
  policy := .unique
  allocScope := .file
  sharing := none
  entries := [⟨some (.v4 0xC0A80000 16), .net (.v4 0x0A000000 30), none, none⟩]

/-- What it compiles to. -/
def twoHostsCfg : FlowCfg where
  key := .address
  entries := [⟨some (.v4 0xC0A80000 16), .pool ⟨[(.v4 0x0A000000 30, 2)], 2⟩ .unique⟩]
  exclude := defaultExclude
  protocols := ⟨false, [17, 6]⟩
  fragments := true

/-- The map of the example compiles. -/
theorem twoHosts_compile : FlowCfg.compile twoHosts = .ok twoHostsCfg := by decide +kernel

/-- Two clients share the two addresses, one each. -/
theorem unique_never_reuses_twoHosts :
    ∃ slot : AllocSlot LeastRng,
      Run twoHostsCfg (new 1 2 (twoHostsCfg.entries.map CompiledEntry.poolLen))
        ([] ++ [(⟨0, .address, .v4 0xC0A80001⟩, .v4 0x0A000001)] ++
          [(⟨0, .address, .v4 0xC0A80002⟩, .v4 0x0A000002)]) slot ∧
      (0x0A000001 : BitVec 32) ≠ 0x0A000002 := by
  have hunique : UniqueOver twoHostsCfg 0 (.v4 0x0A000000 30) :=
    ⟨⟨_, by rw [Pool.fromNets_singleton]; rfl⟩, by decide⟩
  have hasks : ∀ addr, twoHostsCfg.Asks ⟨0, .address, addr⟩ .unique ⟨[(.v4 0x0A000000 30, 2)], 2⟩ :=
    fun addr => ⟨rfl, _, rfl⟩
  have hnil : Run twoHostsCfg (new 1 2 (twoHostsCfg.entries.map CompiledEntry.poolLen)) []
      (new 1 2 (twoHostsCfg.entries.map CompiledEntry.poolLen) : AllocSlot LeastRng) := .nil
  have hfirst : Run twoHostsCfg _ ([] ++ [(⟨0, .address, .v4 0xC0A80001⟩, .v4 0x0A000001)]) _ :=
    hnil.snoc (hasks _) rfl
  have hrun : Run twoHostsCfg _ ([] ++ [(⟨0, .address, .v4 0xC0A80001⟩, .v4 0x0A000001)] ++
      [(⟨0, .address, .v4 0xC0A80002⟩, .v4 0x0A000002)]) _ := hfirst.snoc (hasks _) rfl
  refine ⟨_, hrun, ?_⟩
  have hne := ((unique_never_reuses twoHosts_compile 1 2 hrun).2 0 _ hunique).2 (by decide)
    ⟨0, .address, .v4 0xC0A80001⟩ (.v4 0x0A000001) ⟨0, .address, .v4 0xC0A80002⟩ (.v4 0x0A000002)
    (by decide) (by decide) rfl rfl (by decide)
  exact fun h => hne (congrArg IpAddr.v4 h)

end AllocSlot

end Mergecap
end Maja
