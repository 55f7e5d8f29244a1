namespace CommandShell.Text

-- Length in UTF-8 bytes.
def width : List Char → Nat
  | [] => 0
  | c :: cs => c.utf8Size + width cs

@[simp] theorem width_nil : width [] = 0 := rfl

@[simp] theorem width_cons (c : Char) (cs : List Char) :
    width (c :: cs) = c.utf8Size + width cs := rfl

theorem width_append (cs ds : List Char) : width (cs ++ ds) = width cs + width ds := by
  induction cs with
  | nil => simp
  | cons c cs ih => simp [ih, Nat.add_assoc]

theorem width_pos {cs : List Char} (h : cs ≠ []) : 0 < width cs := by
  cases cs with
  | nil => exact absurd rfl h
  | cons c cs =>
    have hc := c.utf8Size_pos
    simp only [width_cons]
    omega

-- The whole characters that fit into the first `count` bytes.
def takeBytes (count : Nat) : List Char → List Char
  | [] => []
  | c :: cs => if c.utf8Size ≤ count then c :: takeBytes (count - c.utf8Size) cs else []

-- What `takeBytes` leaves.
def dropBytes (count : Nat) : List Char → List Char
  | [] => []
  | c :: cs => if c.utf8Size ≤ count then dropBytes (count - c.utf8Size) cs else c :: cs

theorem takeBytes_append_dropBytes (count : Nat) (cs : List Char) :
    takeBytes count cs ++ dropBytes count cs = cs := by
  induction cs generalizing count with
  | nil => rfl
  | cons c cs ih =>
    by_cases h : c.utf8Size ≤ count <;> simp [takeBytes, dropBytes, h, ih]

-- The last character boundary at or before a byte offset.
def floorBoundary (cs : List Char) (offset : Nat) : Nat :=
  width (takeBytes offset cs)

-- The characters between two byte offsets.
def slice (cs : List Char) (start stop : Nat) : List Char :=
  takeBytes (stop - start) (dropBytes start cs)

def countLines (cs : List Char) : Nat :=
  cs.count '\n'

end CommandShell.Text
