import Mathlib

/- Hash tables whose buckets are chains of entries, each of which holds the link to the next.
   A bucket denotes the list of the entries on its chain: walking finds what a search of that
   list finds, and inserting, unlinking and rehashing are operations on these lists. -/
namespace HashChains

/-- The entries from a link on. -/
inductive Chain {ι : Type} (next : ι → Option ι) : Option ι → List ι → Prop where
  | stop : Chain next none []
  | link {i : ι} {is : List ι} (rest : Chain next (next i) is) : Chain next (some i) (i :: is)

def walk {ι : Type} (next : ι → Option ι) (found : ι → Bool) : Nat → Option ι → Option (Option ι)
  | _, none => some none
  | 0, some _ => none
  | fuel + 1, some i => if found i then some (some i) else walk next found fuel (next i)

/-- The first entry after `q` that is looked for, with the one before it. -/
def predecessor {ι : Type} (next : ι → Option ι) (found : ι → Bool) : Nat → ι → Option (ι × ι)
  | 0, _ => none
  | fuel + 1, q =>
    match next q with
    | none => none
    | some i => if found i then some (q, i) else predecessor next found fuel i

structure Links (ι : Type) where
  head : Nat → Option ι
  next : ι → Option ι

variable {ι : Type} [DecidableEq ι]

def Links.push (l : Links ι) (b : Nat) (i : ι) : Links ι where
  head := Function.update l.head b (some i)
  next := Function.update l.next i (l.head b)

def Links.unlink (l : Links ι) (found : ι → Bool) (fuel b : Nat) : Option (ι × Links ι) :=
  match l.head b with
  | none => none
  | some i =>
    if found i then some (i, { l with head := Function.update l.head b (l.next i) })
    else (predecessor l.next found fuel i).map fun r =>
      (r.2, { l with next := Function.update l.next r.1 (l.next r.2) })

def moveChain (bucketOf : ι → Nat) : Nat → Option ι → Links ι → Option (Links ι)
  | _, none, l => some l
  | 0, some _, _ => none
  | fuel + 1, some i, l => moveChain bucketOf fuel (l.next i) (l.push (bucketOf i) i)

def rehash (bucketOf : ι → Nat) (size fuel : Nat) (old : Links ι) : Option (Links ι) :=
  (List.range size).foldlM (fun l b => moveChain bucketOf fuel (old.head b) l)
    ⟨fun _ => none, old.next⟩

section Chains
variable {next next' : ι → Option ι} {found : ι → Bool} {start : Option ι} {is js : List ι}
  {i q : ι} {fuel : Nat}

omit [DecidableEq ι] in
theorem chain_unique (chain : Chain next start is) (other : Chain next start js) : is = js := by
  induction chain generalizing js with
  | stop => cases other; rfl
  | link rest ih =>
    cases other with
    | link rest' => rw [ih rest']

omit [DecidableEq ι] in
theorem chain_congr (chain : Chain next start is) (same : ∀ i ∈ is, next' i = next i) :
    Chain next' start is := by
  induction chain with
  | stop => exact .stop
  | @link i is rest ih =>
    refine .link ?_
    rw [same i List.mem_cons_self]
    exact ih fun j member => same j (List.mem_cons_of_mem _ member)

theorem chain_beside (chain : Chain next start is) (absent : i ∉ is) (link : Option ι) :
    Chain (Function.update next i link) start is := by
  refine chain_congr chain fun j member => Function.update_of_ne ?_ _ _
  rintro rfl
  exact absent member

omit [DecidableEq ι] in
theorem chain_from (chain : Chain next start is) (member : i ∈ is) :
    ∃ rest, Chain next (some i) (i :: rest) ∧ (i :: rest).length ≤ is.length := by
  induction chain with
  | stop => cases member
  | @link j is rest ih =>
    rcases List.mem_cons.1 member with rfl | later
    · exact ⟨is, .link rest, Nat.le_refl _⟩
    · obtain ⟨js, chain, short⟩ := ih later
      exact ⟨js, chain, Nat.le_trans short (Nat.le_succ _)⟩

omit [DecidableEq ι] in
theorem chain_nodup (chain : Chain next start is) : is.Nodup := by
  induction chain with
  | stop => exact .nil
  | @link i is rest ih =>
    refine List.nodup_cons.2 ⟨fun again => ?_, ih⟩
    obtain ⟨js, chain, short⟩ := chain_from rest again
    have same := chain_unique chain (.link rest)
    rw [same, List.length_cons] at short
    omega

theorem chain_redirect {link : Option ι} (chain : Chain next start is) (rest : Chain next link js)
    (away : i ∉ js) : ∃ ks, Chain (Function.update next i link) start ks := by
  induction chain with
  | stop => exact ⟨[], .stop⟩
  | @link j is tail ih =>
    by_cases here : j = i
    · subst here
      refine ⟨j :: js, .link ?_⟩
      rw [Function.update_self]
      exact chain_beside rest away link
    · obtain ⟨ks, chain⟩ := ih
      refine ⟨j :: ks, .link ?_⟩
      rw [Function.update_of_ne here]
      exact chain

omit [DecidableEq ι] in
theorem walk_chain (chain : Chain next start is) (enough : is.length ≤ fuel) :
    walk next found fuel start = some (is.find? found) := by
  induction chain generalizing fuel with
  | stop => cases fuel <;> rfl
  | @link i is rest ih =>
    cases fuel with
    | zero => simp at enough
    | succ fuel =>
      rw [List.length_cons] at enough
      rw [walk, List.find?_cons]
      cases hit : found i with
      | true => simp
      | false => simpa using ih (by omega)

theorem unlink_after (chain : Chain next (next q) is) (fresh : q ∉ is) (nodup : is.Nodup)
    (member : i ∈ is) (only : ∀ j ∈ is, found j = true ↔ j = i) (enough : is.length ≤ fuel) :
    ∃ p, predecessor next found fuel q = some (p, i) ∧ p ∈ q :: is ∧
      Chain (Function.update next p (next i)) (Function.update next p (next i) q) (is.erase i) := by
  generalize link : next q = start at chain
  induction chain generalizing q fuel with
  | stop => cases member
  | @link j is rest ih =>
    rw [List.nodup_cons] at nodup
    rw [List.mem_cons, not_or] at fresh
    cases fuel with
    | zero => simp at enough
    | succ fuel =>
      rw [List.length_cons] at enough
      rw [predecessor, link]
      by_cases here : j = i
      · have hit := (only j List.mem_cons_self).2 here
        subst here
        refine ⟨q, by simp [hit], List.mem_cons_self, ?_⟩
        rw [List.erase_cons_head, Function.update_self]
        exact chain_beside rest fresh.2 _
      · have miss : found j = false := by
          by_contra hit
          exact here ((only j List.mem_cons_self).1 (by simpa using hit))
        have later : i ∈ is := (List.mem_cons.1 member).resolve_left fun same => here same.symm
        obtain ⟨p, before, among, chain'⟩ := @ih j fuel nodup.1 nodup.2 later
          (fun k inside => only k (List.mem_cons_of_mem _ inside)) (by omega) rfl
        have other : q ≠ p := by
          rintro rfl
          rcases List.mem_cons.1 among with same | inside
          · exact fresh.1 same
          · exact fresh.2 inside
        refine ⟨p, by simp [miss, before], List.mem_cons_of_mem _ among, ?_⟩
        rw [List.erase_cons_tail (by simpa using here), Function.update_of_ne other, link]
        exact .link chain'

end Chains

section Tables
variable {l l' : Links ι} {bucketOf bucketOf' : ι → Nat} {filed : ι → Prop} {i j : ι} {b : Nat}
  {entries : List ι} {fuel : Nat}

/-- Every bucket holds, once each, the entries filed under it. -/
def Filed (l : Links ι) (bucketOf : ι → Nat) (filed : ι → Prop) : Prop :=
  ∀ b, ∃ is, Chain l.next (l.head b) is ∧ is.Nodup ∧ ∀ i, i ∈ is ↔ filed i ∧ bucketOf i = b

omit [DecidableEq ι] in
theorem filed_empty (l : Links ι) (bare : ∀ b, l.head b = none) :
    Filed l bucketOf fun _ => False := by
  intro b
  refine ⟨[], ?_, .nil, by simp⟩
  rw [bare b]
  exact .stop

omit [DecidableEq ι] in
theorem filed_of_same {filed' : ι → Prop} (inv : Filed l bucketOf filed)
    (heads : ∀ b, l'.head b = l.head b) (nexts : ∀ i, filed i → l'.next i = l.next i)
    (same : ∀ i, filed' i ↔ filed i) (buckets : ∀ i, filed i → bucketOf' i = bucketOf i) :
    Filed l' bucketOf' filed' := by
  intro b
  obtain ⟨is, chain, nodup, members⟩ := inv b
  refine ⟨is, ?_, nodup, fun i => ?_⟩
  · rw [heads]
    exact chain_congr chain fun i there => nexts i ((members i).1 there).1
  rw [members, same]
  constructor
  · rintro ⟨there, here⟩
    exact ⟨there, (buckets i there).trans here⟩
  · rintro ⟨there, here⟩
    exact ⟨there, (buckets i there).symm.trans here⟩

omit [DecidableEq ι] in
theorem filed_congr {filed' : ι → Prop} (inv : Filed l bucketOf filed)
    (same : ∀ i, filed' i ↔ filed i) (buckets : ∀ i, filed i → bucketOf' i = bucketOf i) :
    Filed l bucketOf' filed' :=
  filed_of_same inv (fun _ => rfl) (fun _ _ => rfl) same buckets

theorem filed_push (inv : Filed l bucketOf filed) (fresh : ¬ filed i) :
    Filed (l.push (bucketOf i) i) bucketOf fun j => j = i ∨ filed j := by
  intro b
  obtain ⟨is, chain, nodup, members⟩ := inv b
  have absent : i ∉ is := fun there => fresh ((members i).1 there).1
  by_cases here : b = bucketOf i
  · subst here
    refine ⟨i :: is, ?_, List.nodup_cons.2 ⟨absent, nodup⟩, fun j => ?_⟩
    · show Chain _ (Function.update l.head (bucketOf i) (some i) (bucketOf i)) _
      rw [Function.update_self]
      refine .link ?_
      show Chain (Function.update l.next i _) (Function.update l.next i _ i) is
      rw [Function.update_self]
      exact chain_beside chain absent _
    · rw [List.mem_cons, members]
      grind
  · refine ⟨is, ?_, nodup, fun j => ?_⟩
    · show Chain (Function.update l.next i _) (Function.update l.head (bucketOf i) _ b) is
      rw [Function.update_of_ne here]
      exact chain_beside chain absent _
    · rw [members]
      grind

omit [DecidableEq ι] in
theorem walk_filed (inv : Filed l bucketOf filed) (found : ι → Bool)
    (listed : ∀ i, filed i → i ∈ entries) (enough : entries.length ≤ fuel) (b : Nat) :
    ∃ r, walk l.next found fuel (l.head b) = some r ∧
      (∀ i ∈ r, filed i ∧ bucketOf i = b ∧ found i = true) ∧
      (r = none → ∀ i, filed i → bucketOf i = b → found i = false) := by
  obtain ⟨is, chain, nodup, members⟩ := inv b
  have short : is.length ≤ fuel := by
    have fewer := (nodup.subperm fun i there => listed i ((members i).1 there).1).length_le
    omega
  refine ⟨is.find? found, walk_chain chain short, fun i hit => ?_, fun missed i there here => ?_⟩
  · have member := (members i).1 (List.mem_of_find?_eq_some hit)
    exact ⟨member.1, member.2, List.find?_some hit⟩
  · simpa using List.find?_eq_none.1 missed i ((members i).2 ⟨there, here⟩)

omit [DecidableEq ι] in
theorem predecessor_filed {q : ι} (inv : Filed l bucketOf filed) (found : ι → Bool)
    (first : l.head (bucketOf i) = some q) (before : predecessor l.next found fuel q = some (j, i)) :
    filed j ∧ bucketOf j = bucketOf i := by
  obtain ⟨is, chain, -, members⟩ := inv (bucketOf i)
  rw [first] at chain
  suffices among : ∀ n start is, Chain l.next (some start) is →
      predecessor l.next found n start = some (j, i) → j ∈ is from
    (members j).1 (among fuel q is chain before)
  intro n
  induction n with
  | zero => intro start is _ none; cases none
  | succ n ih =>
    intro start is chain before
    cases chain with
    | @link _ rest tail =>
      rw [predecessor] at before
      cases follow : l.next start with
      | none => simp [follow] at before
      | some k =>
        rw [follow] at before tail
        cases hit : found k with
        | true =>
          simp only [hit, if_true, Option.some.injEq, Prod.mk.injEq] at before
          exact before.1 ▸ List.mem_cons_self
        | false =>
          simp only [hit, Bool.false_eq_true, if_false] at before
          exact List.mem_cons_of_mem _ (ih k rest tail before)

theorem unlink_filed (inv : Filed l bucketOf filed) (found : ι → Bool) (there : filed i)
    (only : ∀ j, filed j → bucketOf j = bucketOf i → (found j = true ↔ j = i))
    (listed : ∀ i, filed i → i ∈ entries) (enough : entries.length ≤ fuel) :
    ∃ l', l.unlink found fuel (bucketOf i) = some (i, l') ∧ Filed l' bucketOf (fun j => j ≠ i ∧ filed j) ∧
      (∀ b, b ≠ bucketOf i → l'.head b = l.head b) ∧ (∀ j, ¬ filed j → l'.next j = l.next j) := by
  obtain ⟨is, chain, nodup, members⟩ := inv (bucketOf i)
  have member : i ∈ is := (members i).2 ⟨there, rfl⟩
  have short : is.length ≤ fuel := by
    have fewer := (nodup.subperm fun i there => listed i ((members i).1 there).1).length_le
    omega
  have only' : ∀ j ∈ is, found j = true ↔ j = i := fun j inside =>
    only j ((members j).1 inside).1 ((members j).1 inside).2
  have erased : ∀ j, j ∈ is.erase i ↔ (j ≠ i ∧ filed j) ∧ bucketOf j = bucketOf i := by
    intro j
    rw [nodup.mem_erase_iff, members, and_assoc]
  -- the other buckets hold none of the entries whose link changes
  have others : ∀ (next' : ι → Option ι) (head' : Nat → Option ι),
      (∀ j, j ∉ is → next' j = l.next j) → (∀ b, b ≠ bucketOf i → head' b = l.head b) →
      ∀ b, b ≠ bucketOf i → ∃ js, Chain next' (head' b) js ∧ js.Nodup ∧
        ∀ j, j ∈ js ↔ (j ≠ i ∧ filed j) ∧ bucketOf j = b := by
    intro next' head' nexts heads b other
    obtain ⟨js, chain', nodup', members'⟩ := inv b
    refine ⟨js, ?_, nodup', fun j => ?_⟩
    · rw [heads b other]
      refine chain_congr chain' fun j inside => nexts j fun elsewhere => ?_
      exact other (((members' j).1 inside).2.symm.trans ((members j).1 elsewhere).2)
    · rw [members']
      constructor
      · rintro ⟨known, here⟩
        refine ⟨⟨?_, known⟩, here⟩
        rintro rfl
        exact other here.symm
      · rintro ⟨⟨-, known⟩, here⟩
        exact ⟨known, here⟩
  cases first : l.head (bucketOf i) with
  | none =>
    rw [first] at chain
    cases chain
    cases member
  | some q =>
    rw [first] at chain
    cases chain with
    | @link _ rest tail =>
      rw [List.nodup_cons] at nodup
      have unlinks : l.unlink found fuel (bucketOf i) =
          if found q then some (q, { l with head := Function.update l.head (bucketOf i) (l.next q) })
          else (predecessor l.next found fuel q).map fun r =>
            (r.2, { l with next := Function.update l.next r.1 (l.next r.2) }) := by
        rw [Links.unlink, first]
      by_cases here : q = i
      · subst here
        rw [List.erase_cons_head] at erased
        refine ⟨{ l with head := Function.update l.head (bucketOf q) (l.next q) }, ?_, fun b => ?_,
          fun b other => Function.update_of_ne other _ _, fun j absent => rfl⟩
        · rw [unlinks, if_pos ((only' q List.mem_cons_self).2 rfl)]
        · by_cases same : b = bucketOf q
          · subst same
            refine ⟨rest, ?_, nodup.2, erased⟩
            show Chain l.next (Function.update l.head (bucketOf q) (l.next q) (bucketOf q)) rest
            rw [Function.update_self]
            exact tail
          · exact others l.next _ (fun _ _ => rfl) (fun b other => Function.update_of_ne other _ _) b same
      · have miss : ¬ found q = true := fun hit => here ((only' q List.mem_cons_self).1 hit)
        have later : i ∈ rest := (List.mem_cons.1 member).resolve_left fun same => here same.symm
        rw [List.length_cons] at short
        obtain ⟨p, before, among, chain'⟩ := @unlink_after _ _ _ found _ i q fuel tail nodup.1 nodup.2
          later (fun j inside => only' j (List.mem_cons_of_mem _ inside)) (by omega)
        refine ⟨{ l with next := Function.update l.next p (l.next i) }, ?_, fun b => ?_, fun _ _ => rfl,
          fun j absent => Function.update_of_ne ?_ _ _⟩
        · rw [unlinks, if_neg miss, before, Option.map_some]
        · by_cases same : b = bucketOf i
          · subst same
            rw [List.erase_cons_tail (by simpa using here)] at erased
            refine ⟨q :: rest.erase i, ?_, ?_, erased⟩
            · show Chain _ (l.head (bucketOf i)) _
              rw [first]
              exact .link chain'
            · exact List.nodup_cons.2 ⟨fun inside => nodup.1 (List.mem_of_mem_erase inside),
                nodup.2.erase i⟩
          · refine others _ l.head (fun j outside => Function.update_of_ne ?_ _ _) (fun _ _ => rfl) b same
            rintro rfl
            exact outside among
        · rintro rfl
          exact absent ((members j).1 among).1

theorem filed_moveChain {start : Option ι} {is : List ι} (inv : Filed l bucketOf filed)
    (chain : Chain l.next start is) (nodup : is.Nodup) (fresh : ∀ i ∈ is, ¬ filed i)
    (enough : is.length ≤ fuel) :
    ∃ l', moveChain bucketOf fuel start l = some l' ∧
      Filed l' bucketOf (fun j => j ∈ is ∨ filed j) ∧
      ∀ j, j ∉ is → l'.next j = l.next j := by
  induction is generalizing l filed start fuel with
  | nil =>
    cases chain
    refine ⟨l, ?_, ?_, fun _ _ => rfl⟩
    · cases fuel <;> rfl
    · simpa using inv
  | cons i is ih =>
    cases chain with
    | link rest =>
      rw [List.nodup_cons] at nodup
      cases fuel with
      | zero => simp at enough
      | succ fuel =>
        rw [List.length_cons] at enough
        obtain ⟨l', moves, inv', same⟩ := @ih (l.push (bucketOf i) i) _ fuel (l.next i)
          (filed_push inv (fresh i List.mem_cons_self)) (chain_beside rest nodup.1 _) nodup.2
          (fun j there => by
            rintro (rfl | filed)
            · exact nodup.1 there
            · exact fresh j (List.mem_cons_of_mem _ there) filed) (by omega)
        refine ⟨l', moves, filed_congr inv' (fun j => ?_) fun _ _ => rfl, fun j absent => ?_⟩
        · rw [List.mem_cons]
          tauto
        · rw [List.mem_cons, not_or] at absent
          rw [same j absent.2]
          exact Function.update_of_ne absent.1 _ _

theorem filed_rehash {size : Nat} (inv : Filed l bucketOf filed)
    (bounded : ∀ i, filed i → bucketOf i < size) (listed : ∀ i, filed i → i ∈ entries)
    (enough : entries.length ≤ fuel) :
    ∃ l', rehash bucketOf' size fuel l = some l' ∧ Filed l' bucketOf' filed ∧
      ∀ j, ¬ filed j → l'.next j = l.next j := by
  have loop : ∀ n ≤ size, ∃ l', (List.range n).foldlM (fun l' b =>
      moveChain bucketOf' fuel (l.head b) l') ⟨fun _ => none, l.next⟩ = some l' ∧
      Filed l' bucketOf' (fun j => filed j ∧ bucketOf j < n) ∧
      ∀ j, ¬ (filed j ∧ bucketOf j < n) → l'.next j = l.next j := by
    intro n
    induction n with
    | zero =>
      intro _
      refine ⟨⟨fun _ => none, l.next⟩, rfl, ?_, fun _ _ => rfl⟩
      exact filed_congr (filed_empty _ fun _ => rfl) (by simp) fun _ _ => rfl
    | succ n ih =>
      intro within
      obtain ⟨l₁, moved, inv₁, same₁⟩ := ih (by omega)
      obtain ⟨is, chain, nodup, members⟩ := inv n
      have short : is.length ≤ fuel := by
        have fewer := (nodup.subperm fun i there => listed i ((members i).1 there).1).length_le
        omega
      obtain ⟨l₂, moves, inv₂, same₂⟩ := filed_moveChain inv₁ (chain_congr chain fun j there => same₁ j (by
        rintro ⟨-, below⟩
        rw [((members j).1 there).2] at below
        omega)) nodup (fun j there => by
        rintro ⟨-, below⟩
        rw [((members j).1 there).2] at below
        omega) short
      refine ⟨l₂, ?_, filed_congr inv₂ (fun j => ?_) fun _ _ => rfl, fun j absent => ?_⟩
      · rw [List.range_succ, List.foldlM_append, moved, Option.bind_eq_bind, Option.bind_some,
          List.foldlM_cons, moves]
        rfl
      · rw [members]
        constructor
        · rintro ⟨known, below⟩
          rcases Nat.lt_succ_iff_lt_or_eq.1 below with earlier | here
          · exact .inr ⟨known, earlier⟩
          · exact .inl ⟨known, here⟩
        · rintro (⟨known, here⟩ | ⟨known, below⟩)
          · exact ⟨known, by omega⟩
          · exact ⟨known, by omega⟩
      · rw [same₂ j fun there => absent ⟨((members j).1 there).1, by have := ((members j).1 there).2; omega⟩]
        exact same₁ j fun there => absent ⟨there.1, by omega⟩
  obtain ⟨l', moved, inv', same⟩ := loop size (Nat.le_refl _)
  refine ⟨l', moved, filed_congr inv' (fun j => ?_) fun _ _ => rfl, fun j absent => ?_⟩
  · exact ⟨fun there => ⟨there, bounded j there⟩, fun there => there.1⟩
  · exact same j fun there => absent there.1

theorem filed_refill (inv : Filed l bucketOf filed) (nodup : entries.Nodup)
    (fresh : ∀ i ∈ entries, ¬ filed i) :
    Filed (entries.foldl (fun l i => l.push (bucketOf i) i) l) bucketOf
      (fun j => j ∈ entries ∨ filed j) := by
  induction entries generalizing l filed with
  | nil => simpa using inv
  | cons i rest ih =>
    rw [List.nodup_cons] at nodup
    refine filed_congr (ih (filed_push inv (fresh i List.mem_cons_self)) nodup.2 fun j there => ?_)
      (fun j => ?_) fun _ _ => rfl
    · rintro (rfl | filed)
      · exact nodup.1 there
      · exact fresh j (List.mem_cons_of_mem _ there) filed
    · rw [List.mem_cons]
      tauto

end Tables
end HashChains
