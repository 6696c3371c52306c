import Relock.Pattern.Basic

/-!
# The built-in pattern table

The lock acquisitions and lock-related calls of the standard library and of the common lock crates,
each under its readable and its mangled name. A mutex lock and an exclusive read-write lock of the
standard library deliver the guard through argument 0, wrapped in a result. The `lock_api` locks may
block a second reader on the same thread, so their read locks count as exclusive.
-/

namespace Relock.PatternTable

/-- Matchers for names that start with a text. -/
def starting (texts : List String) : List NameMatcher := texts.map (⟨.starts, ·⟩)

/-- Matchers for names that contain a text. -/
def containing (texts : List String) : List NameMatcher := texts.map (⟨.contains, ·⟩)

/-- The mangled name that methods of the result type start with. -/
def resultMethods (methods : List String) : List String :=
  methods.map ("_ZN4core6result19Result$LT$T$C$E$GT$" ++ ·)

/-- The built-in lock acquisitions. -/
def builtinLocks : List LockPattern := [
  { name := "std-mutex-lock",
    matchers := starting ["std::sync::mutex::Mutex<T>::lock",
      "_ZN3std4sync5mutex14Mutex$LT$T$GT$4lock17h"],
    resourceArg := 1, guardArg := some 0, wrapped := true, minArgs := 2 },
  { name := "std-rwlock-read",
    matchers := starting ["std::sync::rwlock::RwLock<T>::read",
      "_ZN3std4sync6rwlock15RwLock$LT$T$GT$4read17h"],
    mode := .shared, wrapped := true },
  { name := "std-rwlock-write",
    matchers := starting ["std::sync::rwlock::RwLock<T>::write",
      "_ZN3std4sync6rwlock15RwLock$LT$T$GT$5write17h"],
    resourceArg := 1, guardArg := some 0, wrapped := true, minArgs := 2 },
  { name := "lock-api-mutex-lock",
    matchers := starting ["lock_api::mutex::Mutex<R,T>::lock",
      "_ZN8lock_api5mutex18Mutex$LT$R$C$T$GT$4lock17h"] },
  { name := "lock-api-rwlock-read",
    matchers := starting ["lock_api::rwlock::RwLock<R,T>::read",
      "_ZN8lock_api6rwlock19RwLock$LT$R$C$T$GT$4read17h"] },
  { name := "lock-api-rwlock-write",
    matchers := starting ["lock_api::rwlock::RwLock<R,T>::write",
      "_ZN8lock_api6rwlock19RwLock$LT$R$C$T$GT$5write17h"] },
  { name := "handy-rwlock-wl",
    matchers := containing ["HandyRwLock<T>>::wl", "HandyRwLock$LT$T$GT$$GT$2wl"] },
  { name := "handy-rwlock-rl",
    matchers := containing ["HandyRwLock<T>>::rl", "HandyRwLock$LT$T$GT$$GT$2rl"],
    mode := .shared },
  { name := "tokio-sharded-rwlock-read",
    matchers := containing ["tokio_net::driver::sharded_rwlock::RwLock<T>::read",
      "_ZN9tokio_net6driver14sharded_rwlock15RwLock$LT$T$GT$4read"],
    mode := .shared },
  { name := "tokio-sharded-rwlock-write",
    matchers := containing ["tokio_net::driver::sharded_rwlock::RwLock<T>::write",
      "_ZN9tokio_net6driver14sharded_rwlock15RwLock$LT$T$GT$5write"] },
  { name := "crossbeam-spinlock-lock",
    matchers := containing ["crossbeam_channel::utils::Spinlock<T>::lock",
      "_ZN17crossbeam_channel5utils17Spinlock$LT$T$GT$4lock"] },
  { name := "len-caching-mutex-lock",
    matchers := containing ["len_caching_lock::mutex::LenCachingMutex<T>::lock",
      "_ZN16len_caching_lock5mutex24LenCachingMutex$LT$T$GT$4lock"] }]

/-- The built-in library calls. -/
def builtinApis : List ApiPattern := [
  ⟨.unwrap, starting (["core::result::Result<T,E>::unwrap", "core::result::Result<T,E>::expect"] ++
    resultMethods ["6unwrap17h", "9unwrap_or17h", "14unwrap_or_else17h", "17unwrap_or_default17h",
      "6expect17h"])⟩,
  ⟨.passThrough, starting (["core::result::Result<T,E>::map_err",
      "<core::result::Result<T,E> as core::ops::try::Try>::into_result"] ++
    resultMethods ["7map_err17h"] ++
    ["_ZN73_$LT$core..result..Result$LT$T$C$E$GT$$u20$as$u20$core..ops..try..Try$GT$11into_result"])⟩,
  ⟨.autoDrop, starting ["core::ptr::real_drop_in_place", "core::ptr::drop_in_place",
    "_ZN4core3ptr18real_drop_in_place", "_ZN4core3ptr13drop_in_place"]⟩,
  ⟨.manualDrop, starting ["core::mem::drop", "_ZN4core3mem4drop17h"]⟩,
  ⟨.deref, [⟨.glob, "<*Guard<*> as core::ops::deref::Deref*>::deref*"⟩,
    ⟨.glob, "_ZN*Guard$LT$*$u20$as$u20$core..ops..deref..Deref*"⟩]⟩]

/-- The built-in table. -/
def builtin : PatternTable :=
  { locks := builtinLocks, apis := builtinApis,
    exclude := ["raw_mutex", "RawMutex", "raw_rwlock", "RawRwLock"] }

end Relock.PatternTable
