import PageSpeed.Rewriter.LawyerChanges

/-!
What mappings and merges can change.
-/

namespace PageSpeed.Rewriter.DomainLawyer

variable {l l' src : DomainLawyer} {r : DomainRef} {granted : GoogleString → Prop} {star : Prop} {u : UrlLib}
  {setDomainFn : SetDomainFn}

/-! A mapping. -/

structure Attempt where
  toDomainName : GoogleString
  fromDomains : GoogleString
  allowWildcards : Bool
  allowMapToHttps : Bool
  authorizeToDomain : Bool

def Attempt.TargetPasses (a : Attempt) : Prop :=
  isSchemeSafeToMapTo a.toDomainName a.allowMapToHttps = true ∧ a.toDomainName.isEmpty = false ∧
    isWildcardName (normalizeDomainName a.toDomainName) = false

def Attempt.SourcePasses (u : UrlLib) (a : Attempt) (source : GoogleString) : Prop :=
  source ∈ splitStringPieceToVector a.fromDomains [44] true ∧ source.isEmpty = false ∧
    (a.allowWildcards = true ∨ isWildcardName (normalizeDomainName source) = false ∨
      sameOrigin u (normalizeDomainName a.toDomainName) (normalizeDomainName source) = true)

def Attempt.Validates (u : UrlLib) (a : Attempt) (n : GoogleString) : Prop :=
  a.TargetPasses ∧ ((a.authorizeToDomain = true ∧ n = normalizeDomainName a.toDomainName) ∨
    ∃ source, a.SourcePasses u source ∧ n = normalizeDomainName source)

def Attempt.ValidatesStar (u : UrlLib) (a : Attempt) : Prop :=
  a.TargetPasses ∧ a.SourcePasses u (ascii "*") ∧
    sameOrigin u (normalizeDomainName a.toDomainName) (normalizeDomainName (ascii "*")) = false

variable {a : Attempt}

/-! What an attempt authorizes. -/

def isMarked (l : DomainLawyer) (n : GoogleString) : Bool := (l.domainMap.get n).any Domain.authorized

structure Marks (granted : GoogleString → Prop) (star : Prop) (l : DomainLawyer) : Prop where
  names : ∀ n, granted n → l.isMarked n = true
  all : star → l.authorizeAllDomains = true

theorem Grants.marks {granted' : GoogleString → Prop} {star' : Prop} (h : Grants granted star l l')
    (hm : Marks granted' star' l) : Marks granted' star' l' := by
  refine ⟨?_, h.allKept ∘ hm.all⟩
  intro n hn
  have hmarked := hm.names n hn
  rw [isMarked, Option.any_eq_true] at hmarked ⊢
  obtain ⟨d, hd, hauth⟩ := hmarked
  obtain ⟨d', hd', _, hkept, _⟩ := h.kept n d hd
  exact ⟨d', hd', hkept hauth⟩

theorem marks_authorize (hr : Points l r) (hall : star → l.authorizeAllDomains = true) :
    Marks (· = r.name) star (l.authorize r) := by
  rw [authorize, modify, if_pos hr.1]
  refine ⟨?_, hall⟩
  rintro _ rfl
  obtain ⟨d, hd, _⟩ := get_of_points hr
  rw [isMarked, SortedMap.get_modify, if_pos rfl, hd]
  rfl

def Attempt.SourceIsStar (u : UrlLib) (a : Attempt) (source : GoogleString) : Prop :=
  source = ascii "*" ∧ sameOrigin u (normalizeDomainName a.toDomainName) (normalizeDomainName source) = false

theorem grants_mapFrom (hset : SetsPointers setDomainFn) {m : Mapping} (h : Closed m.lawyer) (hr : Points m.lawyer r)
    (hname : r.name = normalizeDomainName a.toDomainName) (htarget : a.TargetPasses) {source : GoogleString}
    (hsource : source ∈ splitStringPieceToVector a.fromDomains [44] true) :
    Grants (a.Validates u) (a.ValidatesStar u) m.lawyer (mapFrom u setDomainFn a.allowWildcards r m source).lawyer ∧
      (a.SourcePasses u source → Marks (· = normalizeDomainName source) (a.SourceIsStar u source)
        (mapFrom u setDomainFn a.allowWildcards r m source).lawyer) := by
  obtain ⟨hadd, href⟩ := grants_addDomainHelper (g := a.Validates u) (s := a.ValidatesStar u) h source
    false false false nofun nofun
  unfold mapFrom
  split
  · next l₁ heq =>
    refine ⟨by rw [heq] at hadd; exact hadd, ?_⟩
    intro hpasses
    cases (fst_addDomainHelper hpasses.2.1 false false).symm.trans (congrArg Prod.fst heq)
  · next fromDomain l₁ heq =>
    rw [heq] at hadd href
    obtain ⟨hempty, hfrom, hpoints⟩ := href fromDomain rfl
    have hauth : a.SourcePasses u source → ∀ k, Closed k →
        Grants (a.Validates u) (a.ValidatesStar u) k (k.authorize fromDomain) := by
      intro hpasses k hk
      exact grants_authorize hk fromDomain ⟨htarget, Or.inr ⟨source, hpasses, hfrom⟩⟩
    rw [Attempt.SourceIsStar, ← hname, ← hfrom]
    split_ifs with horigin hwildcard
    · refine ⟨hadd.trans (hauth ⟨hsource, hempty, Or.inr (Or.inr (hname ▸ hfrom ▸ horigin))⟩ l₁ hadd.closed), ?_⟩
      intro _
      exact marks_authorize hpoints fun hstar => absurd (horigin.symm.trans hstar.2) (by decide)
    · refine ⟨hadd, ?_⟩
      rintro ⟨_, _, hpasses⟩
      rw [Bool.and_eq_true, Bool.not_eq_true'] at hwildcard
      rw [← hname, ← hfrom, hwildcard.1, hwildcard.2] at hpasses
      exact absurd hpasses (by simp only [Bool.false_eq_true, Bool.true_eq_false, false_or]; exact horigin)
    · have hpasses : a.SourcePasses u source := by
        refine ⟨hsource, hempty, ?_⟩
        cases hallow : a.allowWildcards with
        | true => exact Or.inl rfl
        | false =>
          rw [hallow, Bool.not_false, Bool.true_and, Bool.not_eq_true] at hwildcard
          exact Or.inr (Or.inl (hfrom ▸ hwildcard))
      have hstar : Grants (a.Validates u) (a.ValidatesStar u) l₁
          { l₁ with authorizeAllDomains := l₁.authorizeAllDomains || source = ascii "*" } := by
        apply grants_set hadd.closed (fun hall => Bool.or_eq_true_iff.mpr (Or.inl hall))
        intro hall
        obtain hall | hall := Bool.or_eq_true_iff.mp hall
        · exact Or.inl hall
        · rw [decide_eq_true_iff] at hall
          subst hall
          exact Or.inr ⟨htarget, hpasses, hname ▸ hfrom ▸ Bool.not_eq_true _ ▸ horigin⟩
      have hauthorized := hstar.trans (hauth hpasses _ hstar.closed)
      have hsetter : GrantsNothing _ _ := hset _ fromDomain r hauthorized.closed (hauthorized.points hpoints)
        (hauthorized.points (hadd.points hr))
      refine ⟨(hadd.trans hauthorized).trans hsetter.any, fun _ => hsetter.marks ?_⟩
      exact marks_authorize (hstar.points hpoints) fun hs => Bool.or_eq_true_iff.mpr (Or.inr (decide_eq_true hs.1))

theorem grants_foldl_mapFrom (hset : SetsPointers setDomainFn) (hname : r.name = normalizeDomainName a.toDomainName)
    (htarget : a.TargetPasses) (sources : List GoogleString)
    (hsources : ∀ source ∈ sources, source ∈ splitStringPieceToVector a.fromDomains [44] true) {m : Mapping}
    (h : Closed m.lawyer) (hr : Points m.lawyer r) :
    Grants (a.Validates u) (a.ValidatesStar u) m.lawyer
      (sources.foldl (mapFrom u setDomainFn a.allowWildcards r) m).lawyer ∧
    ∀ source ∈ sources, a.SourcePasses u source → Marks (· = normalizeDomainName source) (a.SourceIsStar u source)
      (sources.foldl (mapFrom u setDomainFn a.allowWildcards r) m).lawyer := by
  induction sources generalizing m with
  | nil => exact ⟨Grants.refl h, nofun⟩
  | cons first sources ih =>
    obtain ⟨hstep, hfirst⟩ := grants_mapFrom (u := u) hset h hr hname htarget (hsources first List.mem_cons_self)
    obtain ⟨hrest, hmarks⟩ := ih (fun s hs => hsources s (List.mem_cons_of_mem _ hs)) hstep.closed (hstep.points hr)
    refine ⟨hstep.trans hrest, ?_⟩
    intro source hsource hpasses
    obtain rfl | hsource := List.mem_cons.mp hsource
    · exact hrest.marks (hfirst hpasses)
    · exact hmarks source hsource hpasses

/-- An attempt authorizes what it validates and nothing else. -/
theorem grants_mapDomainHelper (hset : SetsPointers setDomainFn) (h : Closed l) (hostHeader : GoogleString) :
    Grants (a.Validates u) (a.ValidatesStar u) l (l.mapDomainHelper u a.toDomainName a.fromDomains hostHeader
      setDomainFn a.allowWildcards a.allowMapToHttps a.authorizeToDomain).2 ∧
    Marks (a.Validates u) (a.ValidatesStar u) (l.mapDomainHelper u a.toDomainName a.fromDomains hostHeader
      setDomainFn a.allowWildcards a.allowMapToHttps a.authorizeToDomain).2 := by
  have hrefused : ∀ k, ¬a.TargetPasses → Marks (a.Validates u) (a.ValidatesStar u) k :=
    fun k hfails => ⟨fun n hn => absurd hn.1 hfails, fun hs => absurd hs.1 hfails⟩
  unfold mapDomainHelper
  split
  · next hunsafe =>
    refine ⟨Grants.refl h, hrefused l fun htarget => ?_⟩
    rw [htarget.1] at hunsafe
    cases hunsafe
  · next hsafe =>
    obtain ⟨hadd, href⟩ := grants_addDomainHelper (g := a.Validates u) (s := a.ValidatesStar u) h
      a.toDomainName false false false nofun nofun
    split
    · next l₁ heq =>
      rw [heq] at hadd
      refine ⟨hadd, hrefused l₁ fun htarget => ?_⟩
      cases (fst_addDomainHelper htarget.2.1 false false).symm.trans (congrArg Prod.fst heq)
    · next toDomain l₁ heq =>
      rw [heq] at hadd href
      obtain ⟨hempty, hname, hpoints⟩ := href toDomain rfl
      split
      · next hwildcard =>
        refine ⟨hadd, hrefused l₁ fun htarget => ?_⟩
        cases (hname ▸ htarget.2.2).symm.trans hwildcard
      · next hwildcard =>
        have htarget : a.TargetPasses := by
          refine ⟨?_, hempty, ?_⟩
          · rw [Bool.not_eq_true', Bool.not_eq_false] at hsafe
            exact hsafe
          · rw [← hname]
            exact Bool.not_eq_true _ ▸ hwildcard
        have hauth : Grants (a.Validates u) (a.ValidatesStar u) l₁
            (if a.authorizeToDomain then l₁.authorize toDomain else l₁) ∧
            Marks (fun n => a.authorizeToDomain = true ∧ n = toDomain.name) False
              (if a.authorizeToDomain then l₁.authorize toDomain else l₁) := by
          split_ifs with hto
          · exact ⟨grants_authorize hadd.closed toDomain ⟨htarget, Or.inl ⟨hto, hname⟩⟩,
              fun n hn => (marks_authorize hpoints False.elim).names n hn.2, nofun⟩
          · exact ⟨Grants.refl hadd.closed, fun n hn => absurd hn.1 hto, nofun⟩
        dsimp only
        generalize (if a.authorizeToDomain then l₁.authorize toDomain else l₁) = l₂ at hauth ⊢
        obtain ⟨hauth, hmarked⟩ := hauth
        obtain ⟨hfold, hsources⟩ := grants_foldl_mapFrom (u := u) (m := ⟨l₂, true, false⟩) hset hname htarget _
          (fun _ hs => hs) hauth.closed (hauth.points hpoints)
        have hall := (hadd.trans hauth).trans hfold
        have hmarks : Marks (a.Validates u) (a.ValidatesStar u)
            ((splitStringPieceToVector a.fromDomains [44] true).foldl (mapFrom u setDomainFn a.allowWildcards toDomain)
              ⟨l₂, true, false⟩).lawyer := by
          refine ⟨?_, fun hs => (hsources _ hs.2.1.1 hs.2.1).all ⟨rfl, hs.2.2⟩⟩
          rintro n ⟨_, ⟨hto, hn⟩ | ⟨source, hpasses, hn⟩⟩
          · exact (hfold.marks hmarked).names n ⟨hto, hname ▸ hn⟩
          · exact (hsources source hpasses.1 hpasses).names n hn
        split_ifs
        · have hheader := grantsNothing_modify_same (f := fun d => { d with hostHeader := hostHeader }) hall.closed
            toDomain fun _ => ⟨rfl, rfl, rfl⟩
          exact ⟨hall.trans hheader.any, hheader.marks hmarks⟩
        · exact ⟨hall, hmarks⟩

/-! The calls. -/

def Call.isMapping : Call → Bool
  | .addRewriteDomainMapping .. | .addTwoProtocolRewriteDomainMapping .. | .addOriginDomainMapping .. => true
  | .addTwoProtocolOriginDomainMapping .. | .addProxyDomainMapping .. | .addShard .. => true
  | _ => false

def twoProtocolAttempts (u : UrlLib) (l : DomainLawyer) (toDomainName fromDomainName hostHeader : GoogleString)
    (setDomainFn : SetDomainFn) (authorize : Bool) : List Attempt :=
  match domainNameToTwoProtocols toDomainName, domainNameToTwoProtocols fromDomainName with
  | some (httpTo, httpsTo), some (httpFrom, httpsFrom) =>
    ⟨httpTo, httpFrom, false, false, authorize⟩ ::
      if (l.mapDomainHelper u httpTo httpFrom hostHeader setDomainFn false false authorize).1 then
        [⟨httpsTo, httpsFrom, false, true, authorize⟩]
      else []
  | _, _ => []

def proxyAttempts (proxy origin toName : GoogleString) : List Attempt :=
  if toName.isEmpty then [⟨origin, proxy, false, true, true⟩]
  else [⟨origin, toName, false, true, true⟩, ⟨toName, proxy, false, true, true⟩, ⟨origin, proxy, false, true, true⟩]

def Call.attempts (u : UrlLib) (l : DomainLawyer) : Call → List Attempt
  | .addRewriteDomainMapping toName fromNames => [⟨toName, fromNames, true, true, true⟩]
  | .addTwoProtocolRewriteDomainMapping toName fromName =>
    twoProtocolAttempts u l toName fromName [] setRewriteDomain true
  | .addOriginDomainMapping toName fromNames _ => [⟨toName, fromNames, true, true, false⟩]
  | .addTwoProtocolOriginDomainMapping toName fromName hostHeader =>
    twoProtocolAttempts u l toName fromName hostHeader setOriginDomain false
  | .addProxyDomainMapping proxy origin toName => proxyAttempts proxy origin toName
  | .addShard toName shards => [⟨toName, shards, false, true, true⟩]
  | _ => []

def Call.Validates (u : UrlLib) (l : DomainLawyer) (c : Call) (n : GoogleString) : Prop :=
  ∃ a ∈ c.attempts u l, a.Validates u n

def Call.ValidatesStar (u : UrlLib) (l : DomainLawyer) (c : Call) : Prop := ∃ a ∈ c.attempts u l, a.ValidatesStar u

/-- What a list of attempts does: it authorizes what they validate and nothing else. -/
structure Settles (u : UrlLib) (s : List Attempt) (l l' : DomainLawyer) : Prop where
  grants : Grants (fun n => ∃ a ∈ s, a.Validates u n) (∃ a ∈ s, a.ValidatesStar u) l l'
  marks : Marks (fun n => ∃ a ∈ s, a.Validates u n) (∃ a ∈ s, a.ValidatesStar u) l'

variable {s : List Attempt}

theorem Settles.nil (h : Closed l) : Settles u [] l l := ⟨Grants.refl h, by rintro n ⟨_, ⟨⟩, _⟩, by rintro ⟨_, ⟨⟩, _⟩⟩

theorem Settles.cons (a : Attempt) (hset : SetsPointers setDomainFn) (h : Closed l) (hostHeader : GoogleString)
    (hs : Closed (l.mapDomainHelper u a.toDomainName a.fromDomains hostHeader setDomainFn a.allowWildcards
        a.allowMapToHttps a.authorizeToDomain).2 →
      Settles u s (l.mapDomainHelper u a.toDomainName a.fromDomains hostHeader setDomainFn a.allowWildcards
        a.allowMapToHttps a.authorizeToDomain).2 l') : Settles u (a :: s) l l' := by
  obtain ⟨hfirst, hmarks⟩ := grants_mapDomainHelper (u := u) (a := a) hset h hostHeader
  obtain ⟨hrest, hrestMarks⟩ := hs hfirst.closed
  constructor
  · refine (hfirst.mono ?_ ?_).trans (hrest.mono ?_ ?_)
    · exact fun _ hn => ⟨a, List.mem_cons_self, hn⟩
    · exact fun hn => ⟨a, List.mem_cons_self, hn⟩
    · exact fun _ ⟨a', ha', hn⟩ => ⟨a', List.mem_cons_of_mem a ha', hn⟩
    · exact fun ⟨a', ha', hn⟩ => ⟨a', List.mem_cons_of_mem a ha', hn⟩
  · constructor
    · rintro n ⟨a', ha', hn⟩
      obtain rfl | ha' := List.mem_cons.mp ha'
      · exact (hrest.marks hmarks).names n hn
      · exact hrestMarks.names n ⟨a', ha', hn⟩
    · rintro ⟨a', ha', hn⟩
      obtain rfl | ha' := List.mem_cons.mp ha'
      · exact (hrest.marks hmarks).all hn
      · exact hrestMarks.all ⟨a', ha', hn⟩

theorem settles_twoProtocolDomainHelper (hset : SetsPointers setDomainFn) (h : Closed l)
    (toDomainName fromDomainName hostHeader : GoogleString) (authorize : Bool) :
    Settles u (twoProtocolAttempts u l toDomainName fromDomainName hostHeader setDomainFn authorize) l
      (l.twoProtocolDomainHelper u toDomainName fromDomainName hostHeader setDomainFn authorize).2 := by
  unfold twoProtocolAttempts twoProtocolDomainHelper
  cases domainNameToTwoProtocols toDomainName with
  | none => exact Settles.nil h
  | some toUrls =>
    cases domainNameToTwoProtocols fromDomainName with
    | none => exact Settles.nil h
    | some fromUrls =>
      obtain ⟨httpTo, httpsTo⟩ := toUrls
      obtain ⟨httpFrom, httpsFrom⟩ := fromUrls
      refine Settles.cons _ hset h hostHeader ?_
      dsimp only
      cases l.mapDomainHelper u httpTo httpFrom hostHeader setDomainFn false false authorize with
      | mk ok l₁ =>
        intro hhttp
        cases ok with
        | false => exact Settles.nil hhttp
        | true => exact Settles.cons ⟨httpsTo, httpsFrom, false, true, authorize⟩ hset hhttp hostHeader Settles.nil

theorem Settles.rewritable {result : Bool × DomainLawyer} (h : Settles u s l result.2) :
    Settles u s l (DomainLawyer.rewritable result).2 := by
  have hset : GrantsNothing result.2 (DomainLawyer.rewritable result).2 :=
    grants_set h.grants.closed (fun hall => hall) Or.inl _ _ _
  exact ⟨h.grants.trans hset.any, hset.marks h.marks⟩

theorem settles_proxyMapping (h : Closed l) (proxy origin toName : GoogleString) :
    Settles u (proxyAttempts proxy origin toName) l (l.addProxyDomainMapping u proxy origin toName).2 := by
  unfold proxyAttempts addProxyDomainMapping
  split_ifs
  · exact Settles.cons _ setsPointers_setProxyDomain h [] Settles.nil
  · refine Settles.cons _ setsPointers_setProxyDomain h [] fun hproxied => ?_
    refine Settles.cons _ setsPointers_setRewriteDomain hproxied [] fun hrewritten => ?_
    exact Settles.cons _ setsPointers_setOriginDomain hrewritten [] Settles.nil

theorem settles_mapping {c : Call} (hc : c.isMapping = true) (h : Closed l) :
    Settles u (c.attempts u l) l (call u c l).2 := by
  cases c with
  | addRewriteDomainMapping toName fromNames =>
    exact (Settles.cons _ setsPointers_setRewriteDomain h [] Settles.nil).rewritable
  | addTwoProtocolRewriteDomainMapping toName fromName =>
    exact (settles_twoProtocolDomainHelper setsPointers_setRewriteDomain h toName fromName [] true).rewritable
  | addOriginDomainMapping toName fromNames hostHeader =>
    exact Settles.cons _ setsPointers_setOriginDomain h hostHeader Settles.nil
  | addTwoProtocolOriginDomainMapping toName fromName hostHeader =>
    exact settles_twoProtocolDomainHelper setsPointers_setOriginDomain h toName fromName hostHeader false
  | addProxyDomainMapping proxy origin toName => exact settles_proxyMapping h proxy origin toName
  | addShard toName shards =>
    exact (Settles.cons _ (setsPointers_setShardFrom true) h [] Settles.nil).rewritable
  | _ => cases hc

/-! Merges, whatever is merged. -/

theorem grants_cloneAndAdd (h : Closed l) (d : Domain) : Grants (fun _ => True) True l (l.cloneAndAdd d).2 ∧
    ∀ r, (l.cloneAndAdd d).1 = some r → Points (l.cloneAndAdd d).2 r := by
  obtain ⟨hadd, href⟩ := grants_addDomainHelper (g := fun _ => True) (s := True) h d.name false
    d.authorized d.isProxy (fun _ => trivial) fun _ => trivial
  unfold cloneAndAdd
  split
  · next heq =>
    rw [heq] at hadd
    exact ⟨hadd, nofun⟩
  · next dst l₁ heq =>
    rw [heq] at hadd href
    have hset : GrantsNothing l₁ (l₁.modify dst fun d₁ => { d₁ with hostHeader := d.hostHeader }) :=
      grantsNothing_modify_same hadd.closed dst fun _ => ⟨rfl, rfl, rfl⟩
    refine ⟨hadd.trans hset.any, ?_⟩
    intro r hr
    obtain rfl := Option.some_inj.mp hr
    exact hset.points (href dst rfl).2.2

variable {f : DomainLawyer → DomainRef → DomainLawyer}

theorem grants_withClone (src : DomainLawyer) (h : Closed l) (hr : Points l r)
    (hf : ∀ k dst, Closed k → Points k r → Points k dst → GrantsNothing k (f k dst)) (pointer : DomainRef) :
    Grants (fun _ => True) True l (withClone src pointer f l) := by
  unfold withClone
  split
  · exact (grantsNothing_crash h).any
  · next d _ =>
    obtain ⟨hclone, href⟩ := grants_cloneAndAdd h d
    split
    · next heq =>
      rw [heq] at hclone
      exact hclone.trans (grantsNothing_crash hclone.closed).any
    · next dst l₁ heq =>
      rw [heq] at hclone href
      exact hclone.trans (hf l₁ dst hclone.closed (hclone.points hr) (href dst rfl)).any

theorem grants_withCloneOf (src : DomainLawyer) (h : Closed l) (hr : Points l r)
    (hf : ∀ k dst, Closed k → Points k r → Points k dst → GrantsNothing k (f k dst)) (pointer : Option DomainRef) :
    Grants (fun _ => True) True l (withCloneOf src pointer f l) := by
  cases pointer with
  | none => exact Grants.refl h
  | some pointer => exact grants_withClone src h hr hf pointer

theorem grants_foldl_withClone (h : Closed l) (hr : Points l r)
    (hf : ∀ k dst, Closed k → Points k r → Points k dst → GrantsNothing k (f k dst)) (pointers : List DomainRef) :
    Grants (fun _ => True) True l (pointers.foldl (fun l pointer => withClone src pointer f l) l) := by
  induction pointers generalizing l with
  | nil => exact Grants.refl h
  | cons pointer pointers ih =>
    have hstep := grants_withClone src h hr hf pointer
    exact hstep.trans (ih hstep.closed (hstep.points hr))

theorem grants_mergeDomain (h : Closed l) (src : DomainLawyer) (d : Domain) :
    Grants (fun _ => True) True l (mergeDomain src l d) := by
  obtain ⟨hclone, href⟩ := grants_cloneAndAdd h d
  unfold mergeDomain
  split
  · next heq =>
    rw [heq] at hclone
    exact hclone.trans (grantsNothing_crash hclone.closed).any
  · next dst l₁ heq =>
    rw [heq] at hclone href
    have hdst := href dst rfl
    have hrewrite := grants_withCloneOf src (f := fun l target => (l.setRewriteDomain dst target).2) hclone.closed hdst
      (fun k target hk hdst hto => setsPointers_setRewriteDomain k dst target hk hdst hto) d.rewriteDomain
    have horigin := grants_withCloneOf src (f := fun l target => (l.setOriginDomain dst target).2) hrewrite.closed
      (hrewrite.points hdst) (fun k target hk hdst hto => setsPointers_setOriginDomain k dst target hk hdst hto) d.originDomain
    exact ((hclone.trans hrewrite).trans horigin).trans (grants_foldl_withClone horigin.closed
      (horigin.points (hrewrite.points hdst))
      (fun k shard hk hdst hshard => setsPointers_setShardFrom false k shard dst hk hshard hdst) d.shards)

theorem grants_mergeDomains (h : Closed l) (src : DomainLawyer) : Grants (fun _ => True) True l (mergeDomains l src) := by
  unfold mergeDomains
  induction src.domainMap.entries generalizing l with
  | nil => exact Grants.refl h
  | cons e entries ih =>
    have hstep := grants_mergeDomain h src e.2
    exact hstep.trans (ih hstep.closed)

theorem closed_merge (h : Closed l) (src : DomainLawyer) : Closed (l.merge src) := by
  have hgrants := grants_mergeDomains h src
  refine ⟨hgrants.closed.named, hgrants.closed.slash, hgrants.closed.pointers, ?_⟩
  intro r hr
  obtain hr | hr := List.mem_append.mp hr
  · exact hgrants.points (h.wildcards r hr)
  · obtain ⟨r', _, hkey, rfl, _⟩ := mem_mergedWildcards.mp hr
    exact ⟨rfl, hkey⟩

theorem closed_new (id : ℕ) : Closed (new id) := ⟨nofun, nofun, nofun, nofun⟩

theorem closed_call (c : Call) (h : Closed l) : Closed (call u c l).2 := by
  have hadd := fun name w a p => (grants_addDomainHelper (g := fun _ => True) (s := True) h name w a p
    (fun _ => trivial) fun _ => trivial).1
  cases c with
  | addDomain name => exact (hadd name true true false).closed
  | addKnownDomain name => exact (hadd name false false false).closed
  | setAuthorizeAllDomains v => exact ⟨h.named, h.slash, h.pointers, h.wildcards⟩
  | setProxySuffix suffix => exact ⟨h.named, h.slash, h.pointers, h.wildcards⟩
  | clear => exact ⟨nofun, nofun, nofun, nofun⟩
  | _ => exact (settles_mapping rfl h).grants.closed

theorem Reachable.closed {mergeable : DomainLawyer → DomainLawyer → Prop} (h : Reachable u mergeable l) : Closed l := by
  induction h with
  | new id => exact closed_new id
  | call c _ ih => exact closed_call c ih
  | merge _ _ _ ih _ => exact closed_merge ih _

end PageSpeed.Rewriter.DomainLawyer
