import PageSpeed.Base.Ascii
import PageSpeed.Base.Wildcard
import PageSpeed.Lib.SortedMap

/-!
The domains of `net/instaweb/rewriter/domain_lawyer.cc`: their names, the graph that rewrite
targets, origins and shards make of them, and the setters that change it. A pointer to a
domain says whose it is and under which name.
-/

namespace PageSpeed.Rewriter

def findPiece (piece : GoogleString) : GoogleString → Option ℕ
  | [] => if piece.isEmpty then some 0 else none
  | c :: s => if piece.isPrefixOf (c :: s) then some 0 else (findPiece piece s).map (· + 1)

def ensureEndsInSlash (dir : GoogleString) : GoogleString := if dir.getLast? = some 47 then dir else dir ++ [47]

def erasePort (domain : GoogleString) (slash digits : ℕ) : GoogleString :=
  domain.take (slash - digits) ++ domain.drop slash

def normalizeDomainName (domainName : GoogleString) : GoogleString :=
  let (domain, schemeDelimStart) :=
    match findPiece (ascii "://") domainName with
    | none => (ascii "http://" ++ domainName, 4)
    | some start => (domainName, start)
  let domain := ensureEndsInSlash domain
  let originStart := schemeDelimStart + 3
  match findPiece [47] (domain.drop originStart) with
  | none => domain
  | some length =>
    let slash := originStart + length
    let domain := (domain.take slash).map lowerChar ++ domain.drop slash
    let scheme := domain.take schemeDelimStart
    let origin := (domain.drop originStart).take length
    if scheme = ascii "https" ∧ (ascii ":443").isSuffixOf origin then erasePort domain slash 4
    else if scheme = ascii "http" ∧ (ascii ":80").isSuffixOf origin then erasePort domain slash 3
    else domain

example : normalizeDomainName (ascii "WWW.A.com:80/B") = ascii "http://www.a.com/B/" := by decide

structure DomainRef where
  owner : ℕ
  name : GoogleString
  deriving DecidableEq

structure Domain where
  name : GoogleString
  rewriteDomain : Option DomainRef := none
  originDomain : Option DomainRef := none
  hostHeader : GoogleString := []
  shards : List DomainRef := []
  authorized : Bool := false
  cycleBreadcrumb : Bool := false
  isProxy : Bool := false

def isWildcardName (name : GoogleString) : Bool := !(Wildcard.initFromSpec name).isSimple

def Domain.isWildcarded (d : Domain) : Bool := isWildcardName d.name

def Domain.isMatch (d : Domain) (domain : GoogleString) : Bool := (Wildcard.initFromSpec d.name).isMatch domain

def nameBefore (a b : GoogleString) : Bool := decide (a < b)

structure DomainLawyer where
  id : ℕ
  domainMap : SortedMap GoogleString Domain
  wildcardedDomains : List DomainRef
  proxySuffix : GoogleString
  canRewriteDomains : Bool
  authorizeAllDomains : Bool
  crashed : Bool

namespace DomainLawyer

def new (id : ℕ) : DomainLawyer := ⟨id, SortedMap.empty, [], [], false, false, false⟩

def clear (l : DomainLawyer) : DomainLawyer := { new l.id with crashed := l.crashed }

def crash (l : DomainLawyer) : DomainLawyer := { l with crashed := true }

def deref (l : DomainLawyer) (r : DomainRef) : Option Domain :=
  if r.owner = l.id then l.domainMap.get r.name else none

def modify (l : DomainLawyer) (r : DomainRef) (f : Domain → Domain) : DomainLawyer :=
  if r.owner = l.id then { l with domainMap := l.domainMap.modify r.name f } else l

/-- `MergeOrigin`, with a bound on the depth of its recursion. A domain that is not there and a
bound that does not suffice are failures. -/
def mergeOriginFuel : ℕ → DomainLawyer → DomainRef → Option DomainRef → Option DomainLawyer
  | 0, _, _, _ => none
  | fuel + 1, l, self, originDomain =>
    match l.deref self with
    | none => none
    | some d =>
      if d.cycleBreadcrumb then some l
      else do
        let l := l.modify self fun d => { d with cycleBreadcrumb := true }
        let l ←
          if originDomain ≠ d.originDomain ∧ originDomain ≠ none then do
            let l := l.modify self fun d => { d with originDomain := originDomain }
            let l ← d.shards.foldlM (fun l shard => mergeOriginFuel fuel l shard originDomain) l
            match d.rewriteDomain with
            | none => some l
            | some rewriteDomain => mergeOriginFuel fuel l rewriteDomain originDomain
          else some l
        return l.modify self fun d => { d with cycleBreadcrumb := false }

def mergeOrigin (l : DomainLawyer) (self : DomainRef) (originDomain : Option DomainRef) : DomainLawyer :=
  (mergeOriginFuel (l.domainMap.keys.length + 1) l self originDomain).getD l.crash

abbrev SetDomainFn := DomainLawyer → DomainRef → DomainRef → Bool × DomainLawyer

def setRewriteDomain : SetDomainFn := fun l self rewriteDomain =>
  match l.deref self with
  | none => (false, l.crash)
  | some d =>
    if d.rewriteDomain = some rewriteDomain then (true, l)
    else if d.isProxy ∧ d.rewriteDomain ≠ none then (false, l)
    else
      let l := l.modify self fun d => { d with rewriteDomain := some rewriteDomain }
      (true, l.mergeOrigin rewriteDomain d.originDomain)

def isProxyRef (l : DomainLawyer) (r : DomainRef) : Bool := ((l.deref r).map Domain.isProxy).getD false

def setOriginDomain : SetDomainFn := fun l self originDomain =>
  match l.deref self with
  | none => (false, l.crash)
  | some d =>
    if d.originDomain = some originDomain then (true, l)
    else if d.originDomain.any fun origin => l.isProxyRef origin || l.isProxyRef originDomain then (false, l)
    else
      let l := l.mergeOrigin self (some originDomain)
      match l.deref self with
      | none => (false, l.crash)
      | some d =>
        match d.rewriteDomain with
        | none => (true, l)
        | some rewriteDomain => (true, l.mergeOrigin rewriteDomain d.originDomain)

def setProxyDomain : SetDomainFn := fun l self originDomain =>
  let l := l.modify originDomain fun d => { d with isProxy := true }
  match l.setOriginDomain self originDomain with
  | (false, l) => (false, l)
  | (true, l) => l.setRewriteDomain originDomain self

/-- `handler` says whether conflicts are reported, as they are except in a merge. -/
def setShardFrom (handler : Bool) : SetDomainFn := fun l self rewriteDomain =>
  match l.deref self, l.deref rewriteDomain with
  | some d, some target =>
    if d.rewriteDomain ≠ some rewriteDomain ∧ d.rewriteDomain ≠ none ∧ handler then (false, l)
    else
      let l := l.mergeOrigin self target.originDomain
      let l := l.modify rewriteDomain fun d => { d with shards := d.shards ++ [self] }
      (true, l.modify self fun d => { d with rewriteDomain := some rewriteDomain })
  | _, _ => (false, l.crash)

def mark (authorize isProxy : Bool) (d : Domain) : Domain :=
  { d with authorized := d.authorized || authorize, isProxy := d.isProxy || isProxy }

def addDomainHelper (l : DomainLawyer) (domainName : GoogleString) (warnOnDuplicate authorize isProxy : Bool) :
    Option DomainRef × DomainLawyer :=
  if domainName.isEmpty then (none, l)
  else
    let l := { l with authorizeAllDomains := l.authorizeAllDomains || (authorize && domainName = ascii "*") }
    let name := normalizeDomainName domainName
    let r : DomainRef := ⟨l.id, name⟩
    match l.domainMap.get name with
    | none =>
      let l := { l with
        domainMap := l.domainMap.insert nameBefore name { name := name }
        wildcardedDomains := l.wildcardedDomains ++ if isWildcardName name then [r] else [] }
      (some r, l.modify r (mark authorize isProxy))
    | some d =>
      if warnOnDuplicate ∧ authorize = d.authorized then (none, l) else (some r, l.modify r (mark authorize isProxy))

end DomainLawyer

end PageSpeed.Rewriter
