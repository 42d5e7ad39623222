import Apollo.Usmart.Str

/-!
# The commands of USMART

A line that names a registered function is a call: `usmart_cmd_rec` finds the function and
stores its arguments, `usmart_exe` converts them and calls it.  Any other line is tried as
a system command.

## Main definitions

* `usmartNametab` — the registered functions.
* `usmartCmdRec`, `usmartExe`, `usmartSysCmdExe` — the code, without what it prints.
-/

namespace Apollo.Usmart

/-- The functions behind the pointers of the table. -/
inductive Func where
  | read_addr | write_addr | delay_ms | delay_us | lcd_clear | lcd_fill | lcd_draw_line
  | lcd_draw_circle | lcd_draw_rectangle | lcd_show_num | lcd_show_xnum | lcd_show_string
  | lcd_draw_point | lcd_read_point | lcd_display_dir | ltdc_switch | ltdc_layer_switch
  | ltdc_select_layer | ltdc_display_dir | ltdc_draw_point | ltdc_read_point | ltdc_fill
  | ltdc_layer_window_config | ltdc_clear | mymalloc | myfree
  deriving DecidableEq

/-- `struct _m_usmart_nametab`. -/
structure NameTab where
  func : Func
  name : List UInt8

/-- `usmart_nametab`. -/
def usmartNametab : List NameTab := [
  ⟨.read_addr, text "uint32_t read_addr(uint32_t addr)"⟩,
  ⟨.write_addr, text "void write_addr(uint32_t addr,uint32_t val)"⟩,
  ⟨.delay_ms, text "void delay_ms(uint16_t nms)"⟩,
  ⟨.delay_us, text "void delay_us(uint32_t nus)"⟩,
  ⟨.lcd_clear, text "void lcd_clear(uint16_t color)"⟩,
  ⟨.lcd_fill,
    text "void lcd_fill(uint16_t sx, uint16_t sy, uint16_t ex, uint16_t ey, uint16_t color)"⟩,
  ⟨.lcd_draw_line,
    text "void lcd_draw_line(uint16_t x1, uint16_t y1, uint16_t x2, uint16_t y2, uint16_t color)"⟩,
  ⟨.lcd_draw_circle,
    text "void lcd_draw_circle(uint16_t x0, uint16_t y0, uint8_t r, uint16_t color)"⟩,
  ⟨.lcd_draw_rectangle,
    text ("void lcd_draw_rectangle(uint16_t x1, uint16_t y1, uint16_t x2, uint16_t y2, " ++
      "uint16_t color)")⟩,
  ⟨.lcd_show_num, text ("void lcd_show_num(uint16_t x, uint16_t y, uint32_t num, uint8_t len, " ++
    "uint8_t size, uint16_t color)")⟩,
  ⟨.lcd_show_xnum, text ("void lcd_show_xnum(uint16_t x, uint16_t y, uint32_t num, uint8_t len, " ++
    "uint8_t size, uint8_t mode, uint16_t color)")⟩,
  ⟨.lcd_show_string, text ("void lcd_show_string(uint16_t x, uint16_t y, uint16_t width, " ++
    "uint16_t height, uint8_t size, char *p, uint16_t color)")⟩,
  ⟨.lcd_draw_point, text "void lcd_draw_point(uint16_t x, uint16_t y, uint16_t color)"⟩,
  ⟨.lcd_read_point, text "uint16_t lcd_read_point(uint16_t x, uint16_t y)"⟩,
  ⟨.lcd_display_dir, text "void lcd_display_dir(uint8_t dir)"⟩,
  ⟨.ltdc_switch, text "void ltdc_switch(uint8_t sw)"⟩,
  ⟨.ltdc_layer_switch, text "void ltdc_layer_switch(uint8_t layerx, uint8_t sw)"⟩,
  ⟨.ltdc_select_layer, text "void ltdc_select_layer(uint8_t layerx)"⟩,
  ⟨.ltdc_display_dir, text "void ltdc_display_dir(uint8_t dir)"⟩,
  ⟨.ltdc_draw_point, text "void ltdc_draw_point(uint16_t x, uint16_t y, uint32_t color)"⟩,
  ⟨.ltdc_read_point, text "uint32_t ltdc_read_point(uint16_t x, uint16_t y)"⟩,
  ⟨.ltdc_fill,
    text "void ltdc_fill(uint16_t sx, uint16_t sy, uint16_t ex, uint16_t ey, uint32_t color)"⟩,
  ⟨.ltdc_layer_window_config, text ("void ltdc_layer_window_config(uint8_t layerx, uint16_t sx, " ++
    "uint16_t sy, uint16_t width, uint16_t height)")⟩,
  ⟨.ltdc_clear, text "void ltdc_clear(uint32_t color)"⟩,
  ⟨.read_addr, text "uint32_t read_addr(uint32_t addr)"⟩,
  ⟨.write_addr, text "void write_addr(uint32_t addr, uint32_t val)"⟩,
  ⟨.delay_ms, text "void delay_ms(uint16_t nms)"⟩,
  ⟨.delay_us, text "void delay_us(uint32_t nus)"⟩,
  ⟨.mymalloc, text "void *mymalloc(uint8_t memx, uint32_t size)"⟩,
  ⟨.myfree, text "void myfree(uint8_t memx, void *ptr)"⟩]

/-! ## Calls -/

/-- The loop of `usmart_cmd_rec` over the functions from number `i` on: its result or `0`, and
the number it stops at. -/
def findFunc (rfname : List UInt8) (rpnum : ℕ) : List NameTab → ℕ → Except Fault (ℕ × ℕ)
  | [], i => .ok (usmartNofuncfind, i)
  | f :: funs, i => do
      let s ← usmartGetFname maxFnameLen f.name
      if s.res ≠ 0 then pure (s.res, i)
      else if usmartStrcmp s.fname rfname = 0 then
        if s.pnum > rpnum then pure (usmartParmerr, i) else pure (usmartOk, i)
      else findFunc rfname rpnum funs (i + 1)

/-- `usmart_cmd_rec` for the line at `str`: its result, and the device. -/
def usmartCmdRec (str : List UInt8) (dev : Dev) : Except Fault (ℕ × Dev) := do
  let r ← usmartGetFname maxFnameLen (cstr str)
  if r.res ≠ 0 then pure (r.res, dev)
  else do
    let (sta, i) ← findFunc r.fname r.pnum usmartNametab 0
    if sta ≠ 0 then pure (sta, dev)
    else do
      let dev := { dev with id := i }
      let (sta, n, dev) ← dev.usmartGetFparam str
      if sta ≠ 0 then pure (sta, dev) else pure (usmartOk, { dev with pnum := n })

/-- An argument as a function receives it: a number, or a pointer into `parm`. -/
inductive Value where
  | num (n : UInt32)
  | ptr (pos : ℕ)

/-- The number in memory at a pointer. -/
def readNum (parm : ℕ → UInt8) (pos : ℕ) : UInt32 :=
  .ofNat ((parm pos).toNat + (parm (pos + 1)).toNat * 2 ^ 8 + (parm (pos + 2)).toNat * 2 ^ 16 +
    (parm (pos + 3)).toNat * 2 ^ 24)

/-- The slot `i` as `usmart_exe` converts it. -/
def Dev.convert (dev : Dev) (i : ℕ) : Value :=
  if dev.parmtype.getLsbD i then .ptr (dev.usmartGetParmpos i)
  else .num (readNum dev.parm (dev.usmartGetParmpos i))

/-- A call that `usmart_exe` makes: the function, how many slots have been read, and what is
passed; an element of `temp` that has no value is `none`. -/
structure Call where
  func : Func
  read : ℕ
  args : List (Option Value)

/-- `usmart_exe`: the call it makes, if any. -/
def usmartExe (dev : Dev) : Except Fault (Option Call) :=
  match usmartNametab[dev.id]? with
  | none => .ok none
  | some f => do
      let s ← usmartGetFname maxFnameLen f.name
      let temp (i : ℕ) := if i < s.pnum then some (dev.convert i) else none
      pure (if dev.pnum ≤ 10 then some ⟨f.func, s.pnum, (List.range dev.pnum).map temp⟩ else none)

/-! ## System commands -/

/-- `sys_cmd_tab`. -/
def sysCmdTab : List (List UInt8) :=
  [text "?", text "help", text "list", text "id", text "hex", text "dec", text "runtime"]

/-- The number that follows a system command: `usmart_get_aparm` and `usmart_str2num` with
`sfname` as the buffer. -/
def sysCmdParm (str : List UInt8) : Except Fault (Option (ℕ × UInt32)) := do
  let (sfname, type, _) ← usmartGetAparm maxFnameLen .fname str
  pure (if type = .number then some (usmartStr2num sfname) else none)

/-- `hex` and `dec`: a number is shown, or the way to show numbers is set. -/
def sysCmdShow (sptype : ℕ) (str : List UInt8) (dev : Dev) : Except Fault (ℕ × Dev) := do
  match ← sysCmdParm str with
  | none => pure (usmartParmerr, dev)
  | some (i, _) =>
      pure (if i = 0 then (0, dev) else if i ≠ 4 then (usmartParmerr, dev)
        else (0, { dev with sptype := sptype }))

def sysCmdRuntime (str : List UInt8) (dev : Dev) : Except Fault (ℕ × Dev) := do
  match ← sysCmdParm str with
  | none => pure (usmartParmerr, dev)
  | some (i, res) =>
      pure (if i = 0 then (0, { dev with runtimeflag := res.toNat % 2 ^ 8 })
        else (usmartParmerr, dev))

/-- `usmart_sys_cmd_exe` for the line at `str`: its result, and the device. -/
def usmartSysCmdExe (str : List UInt8) (dev : Dev) : Except Fault (ℕ × Dev) := do
  let (res, sfname, _) ← usmartGetCmdname maxFnameLen maxFnameLen (cstr str)
  if res ≠ 0 then pure (usmartFuncerr, dev)
  else
    let str := str.drop sfname.length
    match sysCmdTab.findIdx fun cmd => usmartStrcmp sfname cmd = 0 with
    | 0 | 1 | 2 => pure (0, dev)
    | 3 => do
        let _ ← usmartNametab.mapM fun f => usmartGetFname maxFnameLen f.name
        pure (0, dev)
    | 4 => sysCmdShow 1 str dev
    | 5 => sysCmdShow 0 str dev
    | 6 => sysCmdRuntime str dev
    | _ => pure (usmartFuncerr, dev)

end Apollo.Usmart
