namespace SmallScheme.Library

/-!
# The library

Procedures and syntax that are written in the language itself.  A session evaluates them in the
root scope before anything else.  Every loop here runs in tail position, so the length of a list is
no limit.
-/

/-- Conditionals with one branch. -/
def branches : String := "
(define-syntax when
  (syntax-rules ()
    ((_ test body ...) (if test (begin body ...)))))

(define-syntax unless
  (syntax-rules ()
    ((_ test body ...) (if (not test) (begin body ...)))))
"

/-- Parts of lists. -/
def parts : String := "
(define (cadr xs) (car (cdr xs)))
(define (cddr xs) (cdr (cdr xs)))
(define (caddr xs) (car (cdr (cdr xs))))
"

/-- Folds: from the left with the sum so far first, from the right with it second. -/
def folds : String := "
(define (fold-left f init xs)
  (let loop ((acc init) (xs xs))
    (if (null? xs)
        acc
        (loop (f acc (car xs)) (cdr xs)))))

(define (fold-right f init xs)
  (fold-left (lambda (acc item) (f item acc)) init (reverse xs)))

(define (reduce f init xs)
  (if (null? xs)
      init
      (fold-left f (car xs) (cdr xs))))
"

/-- Selections from lists. -/
def selections : String := "
(define (filter keep? xs)
  (let loop ((xs xs) (acc '()))
    (cond ((null? xs) (reverse acc))
          ((keep? (car xs)) (loop (cdr xs) (cons (car xs) acc)))
          (else (loop (cdr xs) acc)))))

(define (list-tail xs k)
  (if (= k 0)
      xs
      (list-tail (cdr xs) (- k 1))))

(define (list-ref xs k)
  (car (list-tail xs k)))

(define (last-pair xs)
  (if (pair? (cdr xs))
      (last-pair (cdr xs))
      xs))
"

/-- Searches in lists of items. -/
def membership : String := "
(define (memq x xs)
  (cond ((null? xs) #f)
        ((eq? x (car xs)) xs)
        (else (memq x (cdr xs)))))

(define (member x xs)
  (cond ((null? xs) #f)
        ((equal? x (car xs)) xs)
        (else (member x (cdr xs)))))
"

/-- Searches in lists of pairs of a key and a value. -/
def association : String := "
(define (assq key alist)
  (cond ((null? alist) #f)
        ((eq? key (car (car alist))) (car alist))
        (else (assq key (cdr alist)))))

(define (assv key alist)
  (cond ((null? alist) #f)
        ((eqv? key (car (car alist))) (car alist))
        (else (assv key (cdr alist)))))

(define (assoc key alist)
  (cond ((null? alist) #f)
        ((equal? key (car (car alist))) (car alist))
        (else (assoc key (cdr alist)))))
"

def text : String :=
  branches ++ parts ++ folds ++ selections ++ membership ++ association

end SmallScheme.Library
