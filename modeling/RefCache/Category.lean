/-! The eleven categories of reference data, in the order in which reports and statistics list
them. -/

namespace RefCache

inductive Category where
  | users
  | federations
  | companies
  | projects
  | tags
  | companyFields
  | projectFields
  | catalogFields
  | userFederation
  | userCompany
  | companyPriorities
  deriving DecidableEq, Repr

def Category.all : List Category :=
  [.users, .federations, .companies, .projects, .tags, .companyFields, .projectFields,
   .catalogFields, .userFederation, .userCompany, .companyPriorities]

def Category.name : Category → String
  | .users => "users"
  | .federations => "federations"
  | .companies => "companies"
  | .projects => "projects"
  | .tags => "tags"
  | .companyFields => "company_fields"
  | .projectFields => "project_fields"
  | .catalogFields => "catalog_fields"
  | .userFederation => "user_federation"
  | .userCompany => "user_company"
  | .companyPriorities => "company_priorities"

def Category.ofName? (name : String) : Option Category := Category.all.find? (·.name == name)

/-- Position in category order. -/
def Category.rank : Category → Nat
  | .users => 0
  | .federations => 1
  | .companies => 2
  | .projects => 3
  | .tags => 4
  | .companyFields => 5
  | .projectFields => 6
  | .catalogFields => 7
  | .userFederation => 8
  | .userCompany => 9
  | .companyPriorities => 10

theorem Category.mem_all (c : Category) : c ∈ Category.all := by cases c <;> simp [Category.all]

theorem Category.ofName?_name (c : Category) : Category.ofName? c.name = some c := by
  cases c <;> decide

theorem Category.rank_injective {c d : Category} (h : c.rank = d.rank) : c = d := by
  cases c <;> cases d <;> first | rfl | (simp [Category.rank] at h)

instance : Ord Category := ⟨fun c d => compare c.rank d.rank⟩

instance : Std.TransOrd Category where
  eq_swap {c _d} := (Std.OrientedCmp.eq_swap : compare c.rank _ = _)
  isLE_trans {b c _d} := (Std.TransCmp.isLE_trans : (compare b.rank c.rank).isLE → _)

instance : Std.LawfulEqOrd Category where
  eq_of_compare h := Category.rank_injective (Std.LawfulEqOrd.eq_of_compare (h : compare _ _ = _))

end RefCache
