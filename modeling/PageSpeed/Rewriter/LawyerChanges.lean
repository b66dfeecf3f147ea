import PageSpeed.Rewriter.LawyerRuns

/-!
What an operation can change, whatever lawyers are merged: it closes the lawyer again, and
authorizes what it is granted.
-/

namespace PageSpeed.Rewriter.DomainLawyer

variable {l l' l'' src : DomainLawyer} {r : DomainRef} {n : GoogleString} {d : Domain}
  {granted granted' : GoogleString → Prop} {star star' : Prop}

def Domain.pointers (d : Domain) : List DomainRef := d.rewriteDomain.toList ++ d.originDomain.toList ++ d.shards

structure Closed (l : DomainLawyer) : Prop where
  named : ∀ n d, l.domainMap.get n = some d → d.name = n
  slash : ∀ n ∈ l.domainMap.keys, n.getLast? = some 47
  pointers : ∀ n d, l.domainMap.get n = some d → ∀ r ∈ Domain.pointers d, Points l r
  wildcards : ∀ r ∈ l.wildcardedDomains, Points l r

structure Grants (granted : GoogleString → Prop) (star : Prop) (l l' : DomainLawyer) : Prop where
  id : l'.id = l.id
  kept : ∀ n d, l.domainMap.get n = some d → ∃ d', l'.domainMap.get n = some d' ∧ d'.name = d.name ∧
    (d.authorized = true → d'.authorized = true) ∧ (d'.authorized = true → d.authorized = true ∨ granted n)
  fresh : ∀ n d', l.domainMap.get n = none → l'.domainMap.get n = some d' → d'.authorized = true → granted n
  wildcards : ∃ added, l'.wildcardedDomains = l.wildcardedDomains ++ added ∧
    ∀ r ∈ added, l.domainMap.get r.name = none
  all : l'.authorizeAllDomains = true → l.authorizeAllDomains = true ∨ star
  allKept : l.authorizeAllDomains = true → l'.authorizeAllDomains = true
  closed : Closed l'

abbrev GrantsNothing (l l' : DomainLawyer) : Prop := Grants (fun _ => False) False l l'

theorem Grants.mono (h : Grants granted star l l') (hgranted : ∀ n, granted n → granted' n) (hstar : star → star') :
    Grants granted' star' l l' where
  id := h.id
  kept n d hd := by
    obtain ⟨d', hd', hname, hkept, hauth⟩ := h.kept n d hd
    exact ⟨d', hd', hname, hkept, fun hd'' => (hauth hd'').imp_right (hgranted n)⟩
  fresh n d' hn hd' hauth := hgranted n (h.fresh n d' hn hd' hauth)
  wildcards := h.wildcards
  all hall := (h.all hall).imp_right hstar
  allKept := h.allKept
  closed := h.closed

theorem GrantsNothing.any (h : GrantsNothing l l') : Grants granted star l l' := h.mono nofun nofun

theorem Grants.points (h : Grants granted star l l') (hr : Points l r) : Points l' r := by
  obtain ⟨d, hd, _⟩ := get_of_points hr
  obtain ⟨d', hd', _⟩ := h.kept r.name d hd
  exact ⟨hr.1.trans h.id.symm, (SortedMap.mem_keys _ _).mpr (by rw [hd']; rfl)⟩

theorem Grants.none_of_none (h : Grants granted star l l') (hn : l'.domainMap.get n = none) :
    l.domainMap.get n = none := by
  cases hd : l.domainMap.get n with
  | none => rfl
  | some d =>
    obtain ⟨d', hd', _⟩ := h.kept n d hd
    rw [hn] at hd'
    cases hd'

theorem grants_set (h : Closed l) {all : Bool} (hkept : l.authorizeAllDomains = true → all = true)
    (hall : all = true → l.authorizeAllDomains = true ∨ star) (suffix : GoogleString) (rewrites crashed : Bool) :
    Grants granted star l { l with
      proxySuffix := suffix, canRewriteDomains := rewrites, authorizeAllDomains := all, crashed := crashed } where
  id := rfl
  kept _ d hd := ⟨d, hd, rfl, fun hauth => hauth, Or.inl⟩
  fresh n d' hn hd' := by
    rw [hn] at hd'
    cases hd'
  wildcards := ⟨[], (List.append_nil _).symm, nofun⟩
  all := hall
  allKept := hkept
  closed := ⟨h.named, h.slash, h.pointers, h.wildcards⟩

theorem Grants.refl (h : Closed l) : Grants granted star l l := grants_set h (fun hall => hall) Or.inl _ _ _

theorem grantsNothing_crash (h : Closed l) : GrantsNothing l l.crash := grants_set h (fun hall => hall) Or.inl _ _ _

theorem Grants.trans (h : Grants granted star l l') (h' : Grants granted star l' l'') : Grants granted star l l'' := by
  refine ⟨h'.id.trans h.id, ?_, ?_, ?_, ?_, h'.allKept ∘ h.allKept, h'.closed⟩
  · intro n d hd
    obtain ⟨d', hd', hname, hkept, hauth⟩ := h.kept n d hd
    obtain ⟨d'', hd'', hname', hkept', hauth'⟩ := h'.kept n d' hd'
    refine ⟨d'', hd'', hname'.trans hname, hkept' ∘ hkept, ?_⟩
    intro hd
    obtain hd | hn := hauth' hd
    · exact hauth hd
    · exact Or.inr hn
  · intro n d'' hn hd'' hauth
    cases hd' : l'.domainMap.get n with
    | none => exact h'.fresh n d'' hd' hd'' hauth
    | some d' =>
      obtain ⟨d, hd, _, _, hauth'⟩ := h'.kept n d' hd'
      obtain rfl := Option.some_inj.mp (hd.symm.trans hd'')
      obtain hauth | hgranted := hauth' hauth
      · exact h.fresh n d' hn hd' hauth
      · exact hgranted
  · obtain ⟨added, hadded, hnew⟩ := h.wildcards
    obtain ⟨added', hadded', hnew'⟩ := h'.wildcards
    refine ⟨added ++ added', by rw [hadded', hadded, List.append_assoc], ?_⟩
    intro r hr
    obtain hr | hr := List.mem_append.mp hr
    · exact hnew r hr
    · exact h.none_of_none (hnew' r hr)
  · intro hall
    obtain hall | hstar := h'.all hall
    · exact h.all hall
    · exact Or.inr hstar

variable {f : Domain → Domain} {r' : DomainRef}

theorem grants_modify (h : Closed l) (r : DomainRef)
    (hf : ∀ d, (f d).name = d.name ∧ (d.authorized = true → (f d).authorized = true) ∧
      ((f d).authorized = true → d.authorized = true ∨ granted r.name))
    (hpointers : ∀ d, ∀ r' ∈ Domain.pointers (f d), r' ∈ Domain.pointers d ∨ Points l r') :
    Grants granted star l (l.modify r f) := by
  by_cases howner : r.owner = l.id
  · rw [modify, if_pos howner]
    have hget : ∀ n d', (l.domainMap.modify r.name f).get n = some d' →
        ∃ d, l.domainMap.get n = some d ∧ (d' = d ∨ (n = r.name ∧ d' = f d)) := by
      intro n d' hd'
      rw [SortedMap.get_modify] at hd'
      split_ifs at hd' with hn
      · obtain ⟨d, hd, rfl⟩ := Option.map_eq_some_iff.mp hd'
        exact ⟨d, hn ▸ hd, Or.inr ⟨hn, rfl⟩⟩
      · exact ⟨d', hd', Or.inl rfl⟩
    have hpoints : ∀ r', Points l r' → Points { l with domainMap := l.domainMap.modify r.name f } r' := by
      intro r' hr'
      exact ⟨hr'.1, by rw [SortedMap.keys_modify]; exact hr'.2⟩
    refine ⟨rfl, ?_, ?_, ⟨[], (List.append_nil _).symm, by rintro _ ⟨⟩⟩, Or.inl, fun hall => hall, ?_, ?_, ?_, ?_⟩
    · intro n d hd
      dsimp only
      rw [SortedMap.get_modify]
      split_ifs with hn
      · exact ⟨f d, by rw [← hn, hd]; rfl, (hf d).1, hn ▸ (hf d).2⟩
      · exact ⟨d, hd, rfl, fun hauth => hauth, Or.inl⟩
    · intro n d' hn hd' _
      obtain ⟨d, hd, _⟩ := hget n d' hd'
      rw [hn] at hd
      cases hd
    · intro n d' hd'
      obtain ⟨d, hd, rfl | ⟨_, rfl⟩⟩ := hget n d' hd'
      · exact h.named n d' hd
      · exact (hf d).1.trans (h.named n d hd)
    · intro n hn
      rw [SortedMap.keys_modify] at hn
      exact h.slash n hn
    · intro n d' hd' r' hr'
      obtain ⟨d, hd, rfl | ⟨_, rfl⟩⟩ := hget n d' hd'
      · exact hpoints r' (h.pointers n d' hd r' hr')
      · obtain hr' | hr' := hpointers d r' hr'
        · exact hpoints r' (h.pointers n d hd r' hr')
        · exact hpoints r' hr'
    · intro r' hr'
      exact hpoints r' (h.wildcards r' hr')
  · rw [modify, if_neg howner]
    exact Grants.refl h

theorem grantsNothing_modify (h : Closed l) (r : DomainRef)
    (hf : ∀ d, (f d).name = d.name ∧ (f d).authorized = d.authorized ∧
      ∀ r' ∈ Domain.pointers (f d), r' ∈ Domain.pointers d ∨ Points l r') : GrantsNothing l (l.modify r f) := by
  apply grants_modify h r
  · intro d
    exact ⟨(hf d).1, fun hd => (hf d).2.1 ▸ hd, fun hd => Or.inl ((hf d).2.1 ▸ hd)⟩
  · intro d
    exact (hf d).2.2

theorem grantsNothing_modify_same (h : Closed l) (r : DomainRef)
    (hf : ∀ d, (f d).name = d.name ∧ (f d).authorized = d.authorized ∧ Domain.pointers (f d) = Domain.pointers d) :
    GrantsNothing l (l.modify r f) := by
  apply grantsNothing_modify h r
  intro d
  exact ⟨(hf d).1, (hf d).2.1, fun r' hr' => Or.inl ((hf d).2.2 ▸ hr')⟩

theorem mem_pointers_setOrigin {origin : Option DomainRef} {d : Domain}
    (hr : r ∈ Domain.pointers { d with originDomain := origin }) : r ∈ Domain.pointers d ∨ origin = some r := by
  simp only [Domain.pointers, List.mem_append, Option.mem_toList] at hr ⊢
  tauto

theorem mem_pointers_setRewrite {d : Domain}
    (hr : r ∈ Domain.pointers { d with rewriteDomain := some r' }) : r ∈ Domain.pointers d ∨ r = r' := by
  simp only [Domain.pointers, List.mem_append, Option.mem_toList, Option.some.injEq] at hr ⊢
  tauto

theorem mem_pointers_addShard {d : Domain}
    (hr : r ∈ Domain.pointers { d with shards := d.shards ++ [r'] }) : r ∈ Domain.pointers d ∨ r = r' := by
  simp only [Domain.pointers, List.mem_append, Option.mem_toList, List.mem_singleton] at hr ⊢
  tauto

theorem grantsNothing_setOrigin (h : Closed l) (r : DomainRef) {origin : Option DomainRef}
    (horigin : ∀ r, origin = some r → Points l r) :
    GrantsNothing l (l.modify r fun d => { d with originDomain := origin }) := by
  apply grantsNothing_modify h r
  intro d
  exact ⟨rfl, rfl, fun r' hr' => (mem_pointers_setOrigin hr').imp_right (horigin r')⟩

theorem grantsNothing_setRewrite (h : Closed l) (r : DomainRef) (hr' : Points l r') :
    GrantsNothing l (l.modify r fun d => { d with rewriteDomain := some r' }) := by
  apply grantsNothing_modify h r
  intro d
  exact ⟨rfl, rfl, fun r'' hr'' => (mem_pointers_setRewrite hr'').imp_right fun h : r'' = r' => h ▸ hr'⟩

theorem grantsNothing_addShard (h : Closed l) (r : DomainRef) (hr' : Points l r') :
    GrantsNothing l (l.modify r fun d => { d with shards := d.shards ++ [r'] }) := by
  apply grantsNothing_modify h r
  intro d
  exact ⟨rfl, rfl, fun r'' hr'' => (mem_pointers_addShard hr'').imp_right fun h : r'' = r' => h ▸ hr'⟩

theorem grantsNothing_foldlM {origin : Option DomainRef} {walk : DomainLawyer → DomainRef → Option DomainLawyer}
    (hwalk : ∀ l r l', Closed l → (∀ r, origin = some r → Points l r) → walk l r = some l' → GrantsNothing l l')
    (refs : List DomainRef) (h : Closed l) (horigin : ∀ r, origin = some r → Points l r)
    (hresult : refs.foldlM walk l = some l') : GrantsNothing l l' := by
  induction refs generalizing l with
  | nil =>
    obtain rfl := Option.some_inj.mp hresult
    exact Grants.refl h
  | cons r refs ih =>
    rw [List.foldlM_cons] at hresult
    obtain ⟨l₁, hl₁, hrest⟩ := Option.bind_eq_some_iff.mp hresult
    have hstep := hwalk l r l₁ h horigin hl₁
    exact hstep.trans (ih hstep.closed (fun r hr => hstep.points (horigin r hr)) hrest)

theorem grantsNothing_mergeOriginFuel (fuel : ℕ) : ∀ (l : DomainLawyer) (r : DomainRef) (origin : Option DomainRef)
    (l' : DomainLawyer), Closed l → (∀ r, origin = some r → Points l r) →
      mergeOriginFuel fuel l r origin = some l' → GrantsNothing l l' := by
  induction fuel with
  | zero =>
    intro l r origin l' _ _ hresult
    cases hresult
  | succ fuel ih =>
    intro l r origin l' h horigin hresult
    rw [mergeOriginFuel] at hresult
    split at hresult
    · cases hresult
    · next d hd =>
      split_ifs at hresult with hcrumb hset
      · obtain rfl := Option.some_inj.mp hresult
        exact Grants.refl h
      all_goals
        have hdown : GrantsNothing l (l.modify r fun d => { d with cycleBreadcrumb := true }) :=
          grantsNothing_modify_same h r fun _ => ⟨rfl, rfl, rfl⟩
        have hup : ∀ k, Closed k → GrantsNothing k (k.modify r fun d => { d with cycleBreadcrumb := false }) :=
          fun k hk => grantsNothing_modify_same hk r fun _ => ⟨rfl, rfl, rfl⟩
        dsimp only [bind, Option.bind] at hresult
      · have hset := hdown.trans (grantsNothing_setOrigin hdown.closed r fun r hr => hdown.points (horigin r hr))
        split at hresult
        · cases hresult
        · next l₁ hshards =>
          have hwalk := hset.trans (grantsNothing_foldlM (fun l r l' => ih l r origin l') d.shards hset.closed
            (fun r hr => hset.points (horigin r hr)) hshards)
          dsimp only at hresult
          split at hresult
          · obtain rfl := Option.some_inj.mp hresult
            exact hwalk.trans (hup l₁ hwalk.closed)
          · split at hresult
            · cases hresult
            · next l₂ hrewrite =>
              obtain rfl := Option.some_inj.mp hresult
              have hall := hwalk.trans (ih _ _ _ _ hwalk.closed (fun r hr => hwalk.points (horigin r hr)) hrewrite)
              exact hall.trans (hup l₂ hall.closed)
      · obtain rfl := Option.some_inj.mp hresult
        exact hdown.trans (hup _ hdown.closed)

theorem grantsNothing_mergeOrigin (h : Closed l) (r : DomainRef) {o : Option DomainRef}
    (ho : ∀ r, o = some r → Points l r) : GrantsNothing l (l.mergeOrigin r o) := by
  unfold mergeOrigin
  cases hresult : mergeOriginFuel (l.domainMap.keys.length + 1) l r o with
  | none => exact grantsNothing_crash h
  | some l' => exact grantsNothing_mergeOriginFuel _ l r o l' h ho hresult

/-! No setter authorizes anything. -/

def SetsPointers (setDomainFn : SetDomainFn) : Prop :=
  ∀ l self r, Closed l → Points l self → Points l r → GrantsNothing l (setDomainFn l self r).2

theorem Closed.origin (h : Closed l) (hd : l.deref r = some d) (r' : DomainRef) (hr' : d.originDomain = some r') :
    Points l r' := by
  apply h.pointers r.name d (points_of_deref hd).2
  simp [Domain.pointers, hr']

theorem setsPointers_setRewriteDomain : SetsPointers setRewriteDomain := by
  intro l self r h _ hr
  unfold setRewriteDomain
  split
  · exact grantsNothing_crash h
  · next d hd =>
    split_ifs
    · exact Grants.refl h
    · exact Grants.refl h
    · have hset := grantsNothing_setRewrite h self hr
      exact hset.trans (grantsNothing_mergeOrigin hset.closed r fun r' hr' => hset.points (h.origin hd r' hr'))

theorem setsPointers_setOriginDomain : SetsPointers setOriginDomain := by
  intro l self r h _ hr
  unfold setOriginDomain
  split
  · exact grantsNothing_crash h
  · split_ifs
    · exact Grants.refl h
    · exact Grants.refl h
    · have hmerge := grantsNothing_mergeOrigin (o := some r) h self fun r' hr' => Option.some_inj.mp hr' ▸ hr
      dsimp only
      split
      · exact hmerge.trans (grantsNothing_crash hmerge.closed)
      · next d hd =>
        split
        · exact hmerge
        · exact hmerge.trans (grantsNothing_mergeOrigin hmerge.closed _ (hmerge.closed.origin hd))

theorem setsPointers_setProxyDomain : SetsPointers setProxyDomain := by
  intro l self r h hself hr
  have hproxy : GrantsNothing l (l.modify r fun d => { d with isProxy := true }) :=
    grantsNothing_modify_same h r fun _ => ⟨rfl, rfl, rfl⟩
  have hset := hproxy.trans (setsPointers_setOriginDomain _ self r hproxy.closed (hproxy.points hself)
    (hproxy.points hr))
  unfold setProxyDomain
  dsimp only
  split
  · next heq =>
    rw [heq] at hset
    exact hset
  · next heq =>
    rw [heq] at hset
    exact hset.trans (setsPointers_setRewriteDomain _ r self hset.closed (hset.points hr) (hset.points hself))

theorem setsPointers_setShardFrom (handler : Bool) : SetsPointers (setShardFrom handler) := by
  intro l self r h hself hr
  unfold setShardFrom
  split
  · next target _ htarget =>
    split_ifs
    · exact Grants.refl h
    · have hmerge := grantsNothing_mergeOrigin h self (h.origin htarget)
      have hshard := hmerge.trans (grantsNothing_addShard hmerge.closed r (hmerge.points hself))
      exact hshard.trans (grantsNothing_setRewrite hshard.closed self (hshard.points hr))
  · exact grantsNothing_crash h

/-! Adding a domain authorizes it, if it is to be authorized, and nothing else. -/

theorem getLast?_ensureEndsInSlash (s : GoogleString) : (ensureEndsInSlash s).getLast? = some 47 := by
  unfold ensureEndsInSlash
  split_ifs with h
  · exact h
  · exact List.getLast?_concat

theorem lt_of_findPiece {c : UInt8} {s : GoogleString} {k : ℕ} (h : findPiece [c] s = some k) : k < s.length := by
  induction s generalizing k with
  | nil => cases h
  | cons b s ih =>
    rw [findPiece] at h
    split_ifs at h
    · obtain rfl := Option.some_inj.mp h
      exact Nat.succ_pos _
    · obtain ⟨j, hj, rfl⟩ := Option.map_eq_some_iff.mp h
      exact Nat.succ_lt_succ (ih hj)

theorem getLast?_append_drop {c : UInt8} {s : GoogleString} {k : ℕ} (hs : s.getLast? = some c) (hk : k < s.length)
    (t : GoogleString) : (t ++ s.drop k).getLast? = some c := by
  have hdrop : s.drop k ≠ [] := by
    rw [Ne, List.drop_eq_nil_iff]
    omega
  rw [List.getLast?_append_of_ne_nil t hdrop, List.getLast?_drop, if_neg (by omega)]
  exact hs

theorem getLast?_normalizeDomainName (name : GoogleString) : (normalizeDomainName name).getLast? = some 47 := by
  unfold normalizeDomainName
  split
  next domain start heq =>
    have hlast := getLast?_ensureEndsInSlash domain
    dsimp only
    split
    · exact hlast
    · next length hlength =>
      have hk := lt_of_findPiece hlength
      rw [List.length_drop] at hk
      have hslash : start + 3 + length < (ensureEndsInSlash domain).length := by omega
      have hlower := getLast?_append_drop hlast hslash (((ensureEndsInSlash domain).take (start + 3 + length)).map lowerChar)
      have hlength₂ : start + 3 + length < (((ensureEndsInSlash domain).take (start + 3 + length)).map lowerChar ++
          (ensureEndsInSlash domain).drop (start + 3 + length)).length := by
        simp only [List.length_append, List.length_map, List.length_take, List.length_drop]
        omega
      split_ifs
      · exact getLast?_append_drop hlower hlength₂ _
      · exact getLast?_append_drop hlower hlength₂ _
      · exact hlower

theorem grants_addNew (h : Closed l) {name : GoogleString} (hslash : name.getLast? = some 47)
    (hname : l.domainMap.get name = none) : Grants granted star l (l.addNew name) := by
  have hget : ∀ n d, (l.addNew name).domainMap.get n = some d →
      (n = name ∧ d = { name := name }) ∨ l.domainMap.get n = some d := by
    intro n d hd
    rw [addNew, SortedMap.get_insert, hname, Option.getD_none] at hd
    split_ifs at hd with hn
    · exact Or.inl ⟨hn, (Option.some_inj.mp hd).symm⟩
    · exact Or.inr hd
  have hpoints : ∀ r, Points l r → Points (l.addNew name) r := fun r hr => (points_addNew hname).mpr (Or.inr hr)
  refine ⟨rfl, ?_, ?_, ⟨_, rfl, ?_⟩, Or.inl, fun hall => hall, ?_, ?_, ?_, ?_⟩
  · intro n d hd
    rw [addNew, SortedMap.get_insert]
    split_ifs with hn
    · rw [hn, hname] at hd
      cases hd
    · exact ⟨d, hd, rfl, fun hauth => hauth, Or.inl⟩
  · intro n d' hn hd' hauth
    obtain ⟨rfl, rfl⟩ | hd' := hget n d' hd'
    · cases hauth
    · rw [hn] at hd'
      cases hd'
  · intro r hr
    split_ifs at hr
    · obtain rfl := List.mem_singleton.mp hr
      exact hname
    · cases hr
  · intro n d hd
    obtain ⟨rfl, rfl⟩ | hd := hget n d hd
    · rfl
    · exact h.named n d hd
  · intro n hn
    obtain rfl | hn := (keys_addNew hname).mp hn
    · exact hslash
    · exact h.slash n hn
  · intro n d hd r hr
    obtain ⟨rfl, rfl⟩ | hd := hget n d hd
    · cases hr
    · exact hpoints r (h.pointers n d hd r hr)
  · intro r hr
    obtain hr | hr := List.mem_append.mp hr
    · exact hpoints r (h.wildcards r hr)
    · split_ifs at hr
      · obtain rfl := List.mem_singleton.mp hr
        exact (points_addNew hname).mpr (Or.inl rfl)
      · cases hr

theorem grants_addDomainHelper {g : GoogleString → Prop} {s : Prop} (h : Closed l) (name : GoogleString) (warnOnDuplicate authorize isProxy : Bool)
    (hgranted : authorize = true → g (normalizeDomainName name)) (hstar : authorize = true → s) :
    Grants g s l (l.addDomainHelper name warnOnDuplicate authorize isProxy).2 ∧
      ∀ r, (l.addDomainHelper name warnOnDuplicate authorize isProxy).1 = some r →
        name.isEmpty = false ∧ r.name = normalizeDomainName name ∧
          Points (l.addDomainHelper name warnOnDuplicate authorize isProxy).2 r := by
  have hnote : Grants g s l (l.noteStar name authorize) := by
    apply grants_set h (fun hall => Bool.or_eq_true_iff.mpr (Or.inl hall))
    intro hall
    obtain hall | hall := Bool.or_eq_true_iff.mp hall
    · exact Or.inl hall
    · exact Or.inr (hstar (Bool.and_eq_true_iff.mp hall).1)
  have hmark : ∀ l', Grants g s l l' → Points l' ⟨l.id, normalizeDomainName name⟩ → name.isEmpty = false →
      Grants g s l (l'.modify ⟨l.id, normalizeDomainName name⟩ (mark authorize isProxy)) ∧
      ∀ r, some (⟨l.id, normalizeDomainName name⟩ : DomainRef) = some r → name.isEmpty = false ∧
        r.name = normalizeDomainName name ∧
          Points (l'.modify ⟨l.id, normalizeDomainName name⟩ (mark authorize isProxy)) r := by
    intro l' hl' hpoints hempty
    have hmod : Grants g s l' (l'.modify ⟨l.id, normalizeDomainName name⟩ (mark authorize isProxy)) := by
      apply grants_modify hl'.closed
      · intro d
        exact ⟨rfl, fun hd => Bool.or_eq_true_iff.mpr (Or.inl hd),
          fun hd => (Bool.or_eq_true_iff.mp hd).imp_right hgranted⟩
      · intro d r' hr'
        exact Or.inl hr'
    refine ⟨hl'.trans hmod, ?_⟩
    intro r hr
    obtain rfl := Option.some_inj.mp hr
    exact ⟨hempty, rfl, hmod.points hpoints⟩
  by_cases hempty : name.isEmpty = true
  · rw [addDomainHelper, if_pos hempty]
    exact ⟨Grants.refl h, by rintro _ ⟨⟩⟩
  rw [Bool.not_eq_true] at hempty
  cases hname : l.domainMap.get (normalizeDomainName name) with
  | none =>
    rw [addDomainHelper_of_new hname hempty]
    apply hmark _ _ _ hempty
    · exact hnote.trans (grants_addNew hnote.closed (getLast?_normalizeDomainName name) hname)
    · exact (points_addNew hname).mpr (Or.inl rfl)
  | some d =>
    rw [addDomainHelper_of_old hname hempty]
    split_ifs
    · exact ⟨hnote, by rintro _ ⟨⟩⟩
    · apply hmark _ hnote _ hempty
      exact ⟨rfl, (SortedMap.mem_keys _ _).mpr (by rw [noteStar, hname]; rfl)⟩

theorem grants_authorize (h : Closed l) (r : DomainRef) (hr : granted r.name) :
    Grants granted star l (l.authorize r) := by
  apply grants_modify h
  · intro d
    exact ⟨rfl, fun _ => rfl, fun _ => Or.inr hr⟩
  · intro d r' hr'
    exact Or.inl hr'

end PageSpeed.Rewriter.DomainLawyer
