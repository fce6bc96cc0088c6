import LambdaOnOpenStack.Registry.Footprint
import LambdaOnOpenStack.Registry.Invariant
import LambdaOnOpenStack.Support.Paths

/-!
# Where an upload is written

`writeFile` puts the name of the function behind `/home/ubuntu/`.  The name is
the one that the client has registered, and no handler looks at it on the way:
it may climb out of the directory, and it may be that of a file on which the
service depends.
-/

namespace LambdaOnOpenStack

open Support Support.Paths Registry

/-! ## The files of the service -/

/-- The lines of `setup.config`. -/
def setupConfig : List String :=
  ["",
    "#Provide the location of .pem file to access the VM",
    "#This will be used across all VMs",
    "",
    "#KEY=<path to .pem file with file name>",
    "#KEY=/home/ubuntu/key.pem",
    "",
    "KEY=/home/ubuntu/my-key.pem",
    "",
    "#Provide the VM provisioning details/parameters",
    "",
    "FLAVOR=m1.medium",
    "IMAGE=ubuntu-14.04",
    "KEY_NAME=my-key",
    "SEC_GROUPS=SSH,default",
    "NETWORK=net-work"]

/-- What `awk '{split($0,a,"="); if(a[1]==key) print a[2]}'` prints. -/
def setting (key : String) (lines : List String) : List String :=
  lines.filterMap fun line =>
    let a := line.toList.splitOnP (· = '=')
    if a[0]? = some key.toList then some (String.ofList (a[1]?.getD []))
    else none

def KEY : String := String.intercalate "\n" (setting "KEY" setupConfig)

def serviceDirectory : String := "/home/ubuntu/Lambda-on-OpenStack"

/-- The home directory, resolved. -/
def home : List String := ["home", "ubuntu"]

theorem KEY_eq : KEY = "/home/ubuntu/my-key.pem" := by
  decide +kernel

theorem resolve_KEY : resolve KEY = home ++ ["my-key.pem"] := by
  rw [KEY_eq]
  decide

theorem resolve_serviceDirectory :
    resolve serviceDirectory = home ++ ["Lambda-on-OpenStack"] := by
  decide

/-! ## Names and paths -/

/-- A file that an upload may overwrite: it lies below the home directory, it
is not the key, and it does not belong to the service. -/
structure Harmless (path : String) : Prop where
  below : ∃ below, below ≠ [] ∧ resolve path = home ++ below
  key : resolve path ≠ resolve KEY
  service : ¬resolve serviceDirectory <+: resolve path

/-- The name goes down again what it has climbed, and from the home directory
to an entry that is neither the key nor in the directory of the service. -/
def StaysHome (name : String) : Prop :=
  ∃ below,
    (route (movesOf name)).downs =
        home.drop (home.length - (route (movesOf name)).ups) ++ below ∧
      below ≠ [] ∧ below ≠ ["my-key.pem"] ∧
      below.head? ≠ some "Lambda-on-OpenStack"

theorem resolve_hostPath (name : String) :
    resolve (hostPath name) = walk home (movesOf name) := by
  have hhome : resolve "/home/ubuntu" = home := by decide
  have hslash : "/home/ubuntu/" = "/home/ubuntu" ++ "/" := by decide
  rw [hostPath, hslash, resolve_append_slash, hhome]

/-- Which names the fixed prefix keeps from doing harm. -/
theorem harmless_hostPath_iff (name : String) :
    Harmless (hostPath name) ↔ StaysHome name := by
  have hservice (below : List String) :
      home ++ ["Lambda-on-OpenStack"] <+: home ++ below ↔
        below.head? = some "Lambda-on-OpenStack" := by
    rw [List.prefix_append_right_inj]
    cases below with
    | nil => simp
    | cons entry rest => simp [List.cons_prefix_cons, eq_comm]
  constructor
  · rintro ⟨⟨below, hne, hbelow⟩, hkey, hnot⟩
    rw [hbelow, resolve_KEY] at hkey
    rw [hbelow, resolve_serviceDirectory, hservice] at hnot
    rw [resolve_hostPath, walk_eq_append_iff] at hbelow
    refine ⟨below, hbelow, hne, ?_, hnot⟩
    rintro rfl
    exact hkey rfl
  · rintro ⟨below, hroute, hne, hkey, hnot⟩
    have hbelow : resolve (hostPath name) = home ++ below := by
      rw [resolve_hostPath, walk_eq_append_iff]
      exact hroute
    refine ⟨⟨below, hne, hbelow⟩, ?_, ?_⟩
    · rw [hbelow, resolve_KEY]
      intro hsame
      exact hkey (List.append_cancel_left hsame)
    · rwa [hbelow, resolve_serviceDirectory, hservice]

/-! ## What a request opens -/

def HostOp.path : HostOp → String
  | .truncate path => path
  | .write path _ => path

/-- Every file of the host that was opened so far could be overwritten. -/
def UploadsHarmless (w : World) : Prop := ∀ op ∈ w.host, Harmless op.path

/-- If the request is an event whose dispatch opens a file, then the name that
it found in the first document of the user stays home. -/
def OpensAtHome (P : Platform) (w : World) : Request → Prop
  | .event params => ∀ e d name, readEvent params = .ok e →
      Picks P e w d name → StaysHome name
  | _ => True

/-- If the request registers a function, then its name stays home. -/
def RegistersAtHome (P : Platform) (w : World) : Request → Prop
  | .post body => ((postLambda P body).run w).1 = .ok .created →
      ∀ name, body.FileName = .str name → StaysHome name
  | _ => True

variable {P : Platform} {w : World}

/-- A dispatch opens the file of the record that it picks and no other. -/
theorem DispatchRun.opened_cases {e : Event} {w' : World}
    {result : Except Failure Unit} (hrun : DispatchRun P e w result w') :
    (∃ d name ops, Picks P e w d name ∧ w'.host = w.host ++ ops ∧ ops ≠ [] ∧
        ∀ op ∈ ops, op.path = hostPath name) ∨
      ((∀ d name, ¬Picks P e w d name) ∧ w' = w) := by
  have hpicked := hrun.picked_cases
  have hrewritten (name : String) (content : Bytes) :
      ∀ op ∈ [HostOp.truncate (hostPath name), .write (hostPath name) content],
        op.path = hostPath name := by simp [HostOp.path]
  cases hrun with
  | unread hpicks =>
      exact Or.inl ⟨_, _, _, hpicks, rfl, by simp, by simp [HostOp.path]⟩
  | uncounted hpicks =>
      exact Or.inl ⟨_, _, _, hpicks, rfl, by simp, hrewritten _ _⟩
  | unrecorded hpicks =>
      exact Or.inl ⟨_, _, _, hpicks, rfl, by simp, hrewritten _ _⟩
  | unprinted hcompletes =>
      exact Or.inl ⟨_, _, _, hcompletes.toPicks, rfl, by simp, hrewritten _ _⟩
  | started hcompletes =>
      exact Or.inl ⟨_, _, _, hcompletes.toPicks, rfl, by simp, hrewritten _ _⟩
  | _ =>
      rcases hpicked with ⟨d, name, rest, -, hhost⟩ | hnone
      · simp at hhost
      · exact Or.inr hnone

theorem exec_web_host {request : Request} (hweb : request.isWeb = true) :
    (exec P w request).host = w.host :=
  (World.listener_eq_iff.mp
    ((confined_webHandler P ⟨request, hweb⟩).run w)).1

/-- A request does no harm exactly if the name of the file that it opens stays
home. -/
theorem uploadsHarmless_exec_iff (hw : UploadsHarmless w) (request : Request) :
    UploadsHarmless (exec P w request) ↔ OpensAtHome P w request := by
  by_cases hweb : request.isWeb = true
  · have hopens : OpensAtHome P w request := by
      cases request with
      | event params => simp [Request.isWeb] at hweb
      | _ => trivial
    refine iff_of_true ?_ hopens
    rw [UploadsHarmless, exec_web_host hweb]
    exact hw
  · obtain ⟨params, rfl⟩ : ∃ params, request = .event params := by
      cases request with
      | event params => exact ⟨params, rfl⟩
      | _ => simp [Request.isWeb] at hweb
    rw [exec_event]
    cases hevent : readEvent params with
    | error x =>
        refine iff_of_true hw ?_
        intro e d name hevent'
        rw [hevent] at hevent'
        simp at hevent'
    | ok e =>
        rcases (dispatch_run P e w).opened_cases with
          ⟨d, name, ops, hpicks, hhost, hne, hpath⟩ | ⟨hnone, hsame⟩
        · simp only [UploadsHarmless, hhost]
          constructor
          · intro hharmless e' d' name' hevent' hpicks'
            obtain rfl := Except.ok.inj (hevent.symm.trans hevent')
            obtain ⟨op, hop⟩ := List.exists_mem_of_ne_nil _ hne
            rw [(hpicks'.unique hpicks).2, ← harmless_hostPath_iff, ← hpath op hop]
            exact hharmless op (List.mem_append_right _ hop)
          · intro hopens op hop
            rcases List.mem_append.mp hop with hop | hop
            · exact hw op hop
            · rw [hpath op hop, harmless_hostPath_iff]
              exact hopens e d name hevent hpicks
        · simp only [hsame]
          refine iff_of_true hw ?_
          intro e' d' name' hevent' hpicks'
          obtain rfl := Except.ok.inj (hevent.symm.trans hevent')
          exact absurd hpicks' (hnone d' name')

/-! ## The names in the database -/

namespace Registry

variable {r r' : Registry}

/-- All functions have names that stay home. -/
def NamesStayHome (r : Registry) : Prop :=
  ∀ d ∈ r.mapping, ∀ name, d.filename = .str name → StaysHome name

theorem Change.namesStayHome {request : Request}
    (hchange : Change P r request r') (h : r.NamesStayHome)
    (hpost : ∀ body, request = .post body →
      ∀ name, body.FileName = .str name → StaysHome name) :
    r'.NamesStayHome := by
  cases hchange with
  | idle => exact h
  | unmatched => exact h
  | uploaded => exact h
  | @registered body g =>
      intro d hd
      rcases List.mem_append.mp hd with hd | hd
      · exact h d hd
      · obtain rfl := List.mem_singleton.mp hd
        exact hpost body rfl
  | updated =>
      intro d hd
      obtain ⟨e, he, -, -, hname, -⟩ := mem_updateKey _ hd
      rw [hname]
      exact h e he
  | removed =>
      intro d hd
      exact h d (List.mem_of_mem_eraseP hd)
  | recorded _ hlatest =>
      intro d hd
      rcases List.mem_append.mp hd with hd | hd
      · exact h d hd
      · obtain rfl := List.mem_singleton.mp hd
        have hcopied := h _ (List.mem_filter.mp (List.argmax_mem hlatest)).1
        exact hcopied

end Registry

/-- A `POST` that creates nothing changes nothing. -/
theorem exec_post_of_not_created {body : Body}
    (hfiles : (w.registry.files.map fun f => (f.metadata, f.filename)).Nodup)
    (hnot : ((postLambda P body).run w).1 ≠ .ok .created) :
    exec P w (.post body) = w := by
  rcases postLambda_cases P body w hfiles with ⟨f, -, -, -, hrun⟩ | ⟨-, hsame⟩
  · rw [hrun] at hnot
    exact absurd rfl hnot
  · exact hsame

theorem namesStayHome_exec (hw : WellFormed P w.registry)
    (hnames : w.registry.NamesStayHome) {request : Request}
    (hrequest : RegistersAtHome P w request) :
    (exec P w request).registry.NamesStayHome := by
  by_cases hcreated : ∀ body, request = .post body →
      ((postLambda P body).run w).1 = .ok .created
  · refine (hw.change_exec request).namesStayHome hnames ?_
    rintro body rfl
    exact hrequest (hcreated body rfl)
  · push Not at hcreated
    obtain ⟨body, rfl, hnot⟩ := hcreated
    rw [exec_post_of_not_created hw.file_keys hnot]
    exact hnames

theorem Registry.NamesStayHome.opensAtHome (h : w.registry.NamesStayHome)
    (request : Request) : OpensAtHome P w request := by
  cases request with
  | event params =>
      intro e d name _ hpicks
      exact h d (List.mem_of_find?_eq_some hpicks.first) name hpicks.filename
  | _ => trivial

/-- Every file that the dispatches of a run open lies below the home
directory, is not the key and does not belong to the service, exactly if every
dispatch that opens one finds a name that stays home.  For that it is enough
that the names of all functions do that are registered in the run. -/
theorem uploads_harmless_iff (P : Platform) (requests : List Request) :
    (Throughout (exec P) UploadsHarmless {} requests ↔
      Along (exec P) (OpensAtHome P) {} requests) ∧
    (Along (exec P) (RegistersAtHome P) {} requests →
      Throughout (exec P) UploadsHarmless {} requests) := by
  have hinit : UploadsHarmless {} := by simp [UploadsHarmless]
  constructor
  · apply throughout_iff_along (J := fun _ => True)
    · intro w request _
      trivial
    · intro w request _ hw
      exact uploadsHarmless_exec_iff hw request
    · trivial
    · exact hinit
  · intro hregisters
    have hrun := throughout_of_along
      (I := fun w : World => WellFormed P w.registry ∧
        w.registry.NamesStayHome ∧ UploadsHarmless w)
      (fun w request h hrequest => ⟨h.1.after_exec request,
        namesStayHome_exec h.1 h.2.1 hrequest,
        (uploadsHarmless_exec_iff h.2.2 request).mpr
          (h.2.1.opensAtHome request)⟩)
      ⟨WellFormed.empty, by simp [NamesStayHome], hinit⟩ hregisters
    exact hrun.imp fun _ h => h.2.2

/-- A function with the name of the key. -/
def keyUpload : List Request :=
  [.fileupload (.str "testUser") "my-key.pem" [112, 97, 115, 115],
    .post (.sample "testUser" "my-key.pem"),
    .event (samplePayload "testUser" "my-key.pem")]

theorem upload_overwrites_key :
    ¬∀ requests, Throughout (exec default) UploadsHarmless {} requests := by
  intro hall
  have hlast := throughout_iff.mp (hall keyUpload) keyUpload [] rfl
  have hopened : .truncate "/home/ubuntu/my-key.pem" ∈
      (runAll (exec default) {} keyUpload).host := by decide
  have hkey := (hlast _ hopened).key
  rw [KEY_eq] at hkey
  exact hkey rfl

end LambdaOnOpenStack
